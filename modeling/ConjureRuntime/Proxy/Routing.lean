import ConjureRuntime.Foundation.Transition
import ConjureRuntime.Proxy.Layers

/-!
# The way of a request

The HTTP client sends the attempts of requests over any connection that it has
for the scheme and the authority, and it makes connections as it likes; each
of them is set up by the connectors.

Taken from the documentation of the packages below are: that the pool of
hyper-util keys its connections by the scheme and the authority of a request's
URI and asks the connector for just these; that hyper writes the whole URI of
a request where the connection is marked as one to a proxy; and that the
connector of hyper-rustls passes the stream for an `http` URI on, begins a TLS
handshake with the name of the host on that for an `https` one, and refuses
other schemes.
-/

namespace ConjureRuntime.Proxy

open ConjureRuntime.Foundation ConjureRuntime.Service ConjureRuntime.Node

/-! ## Connections -/

inductive Stage where
  | connecting
  | tunneling (stream : Stream) (target : String)
  | handshaking (connection : ProxyConnection)
  | ready (connection : ProxyConnection) (serverName : Option String)
  | closed
  deriving DecidableEq

/-- A connection and how far it is set up.  The URI is that of the scheme and
the authority that it is for. -/
structure Dial where
  uri : Uri
  stage : Stage
  deriving DecidableEq

abbrev Connections := List Dial

inductive Op (τ : Type) where
  | dial (scheme authority : String)
  | connected (dial : Nat) (succeeds : Bool)
  | answered (dial : Nat) (status : StatusCode)
  | handshake (dial : Nat) (succeeds : Bool)
  | send (dial : Nat) (node : String) (trace : Option τ) (request : Parts)
  | close (dial : Nat)

inductive Event where
  | dialed (peer : Uri)
  | connected (dial : Nat)
  | connect (dial : Nat) (stream : Stream) (request : ConnectRequest)
  | answered (dial : Nat) (status : StatusCode)
  | handshaken (dial : Nat)
  /-- The attempt of a request, over a connection to a server of a name or
  without TLS; the URI is sent as a whole or only its path. -/
  | sent (dial : Nat) (stream : Stream) (serverName : Option String)
      (absolute : Bool) (request attempt : Parts)
  | failed (dial : Nat)

namespace Connections

variable {τ : Type} (layers : Layers τ) (connections : Connections)

def setStage (dial : Nat) (stage : Stage) : Connections :=
  connections.modify dial fun made => { made with stage := stage }

/-- `HttpsConnector`, built with `https_or_http`: the stream for an `http` URI
is passed on as it is. -/
def stageOf (uri : Uri) (connection : ProxyConnection) : Stage :=
  if uri.scheme = some Scheme.https then .handshaking connection
  else .ready connection none

def connected (dial : Nat) (made : Dial) (succeeds : Bool) :
    Event × Connections :=
  if succeeds then
    let config := ProxyConnectorLayer.new layers.proxy
    let stream : Stream := ⟨ProxyConnectorService.call config made.uri, none⟩
    match ProxyConnectorService.connected layers.http config made.uri
        stream with
    | .error _ => (.failed dial, setStage connections dial .closed)
    | .ok (.inl connection) =>
        (.connected dial,
          setStage connections dial (stageOf made.uri connection))
    | .ok (.inr request) =>
        (.connect dial stream request,
          setStage connections dial (.tunneling stream request.target))
  else (.failed dial, setStage connections dial .closed)

def answered (dial : Nat) (stream : Stream) (target : String)
    (status : StatusCode) : Event × Connections :=
  match tunneled stream target status with
  | .ok stream =>
      (.answered dial status,
        setStage connections dial (.handshaking ⟨stream, false⟩))
  | .error _ => (.answered dial status, setStage connections dial .closed)

/-- The handshake of rustls ends; the certificate was checked against the name
of the URI's host. -/
def handshake (dial : Nat) (made : Dial) (connection : ProxyConnection)
    (succeeds : Bool) : Event × Connections :=
  if succeeds then
    (.handshaken dial, setStage connections dial (.ready connection
      (some (layers.http.serverName (layers.http.uriHost made.uri)))))
  else (.failed dial, setStage connections dial .closed)

def next (op : Op τ) : Option (Event × Connections) :=
  match op with
  | .dial scheme authority =>
      -- the pool asks by scheme and authority, `HttpsConnector` for http(s)
      let uri : Uri := ⟨some scheme, some authority, "/", none⟩
      if scheme = Scheme.http ∨ scheme = Scheme.https then
        some (.dialed (ProxyConnectorService.call
          (ProxyConnectorLayer.new layers.proxy) uri),
          connections ++ [⟨uri, .connecting⟩])
      else none
  | .connected dial succeeds =>
      match connections[dial]? with
      | some ⟨uri, .connecting⟩ =>
          some (connected layers connections dial ⟨uri, .connecting⟩ succeeds)
      | _ => none
  | .answered dial status =>
      match connections[dial]? with
      | some ⟨_, .tunneling stream target⟩ =>
          some (answered connections dial stream target status)
      | _ => none
  | .handshake dial succeeds =>
      match connections[dial]? with
      | some ⟨uri, .handshaking connection⟩ =>
          some (handshake layers connections dial
            ⟨uri, .handshaking connection⟩ connection succeeds)
      | _ => none
  | .send dial node trace request =>
      match connections[dial]?, layers.attempt node trace request with
      | some ⟨uri, .ready connection serverName⟩, .ok attempt =>
          -- the key of a pooled connection
          if attempt.uri.scheme = uri.scheme ∧
              attempt.uri.authority = uri.authority then
            some (.sent dial connection.stream serverName connection.proxy
              request attempt, connections)
          else none
      | _, _ => none
  | .close dial =>
      some (.failed dial, setStage connections dial .closed)

def Step (connections : Connections) (event : Event)
    (connections' : Connections) : Prop :=
  ∃ op, next layers connections op = some (event, connections')

end Connections

/-! ## Routes -/

/-- The connections that a request to a destination may be sent over. -/
inductive Route {τ : Type} (layers : Layers τ) (destination : Uri) :
    Stream → Option String → Bool → Prop where
  | direct :
      layers.proxy = .direct → destination.scheme = some Scheme.http →
      Route layers destination ⟨destination, none⟩ none false
  | directTls :
      layers.proxy = .direct → destination.scheme = some Scheme.https →
      Route layers destination ⟨destination, none⟩
        (some (layers.http.serverName (layers.http.uriHost destination)))
        false
  | proxied {config} :
      layers.proxy = .http config →
      destination.scheme = some Scheme.http →
      Route layers destination ⟨config.uri, none⟩ none true
  | tunneled {config host} :
      layers.proxy = .http config →
      destination.scheme = some Scheme.https →
      layers.http.uriHost destination = some host →
      Route layers destination
        ⟨config.uri, some (tunnelTarget layers.http destination host)⟩
        (some (layers.http.serverName (layers.http.uriHost destination)))
        false

def Asked (events : List Event) (dial : Nat) (peer : Uri) (target : String) :
    Prop :=
  ∃ request, .connect dial ⟨peer, none⟩ request ∈ events ∧
    request.target = target

def Granted (events : List Event) (dial : Nat) (stream : Stream) : Prop :=
  ∀ target, stream.tunnel = some target →
    Asked events dial stream.peer target ∧
      ∃ status : StatusCode, status.isSuccess = true ∧
        .answered dial status ∈ events

def SetUp {τ : Type} (layers : Layers τ) (events : List Event) (dial : Nat)
    (uri : Uri) : Stage → Prop
  | .connecting =>
      uri.scheme = some Scheme.http ∨ uri.scheme = some Scheme.https
  | .tunneling stream target =>
      uri.scheme = some Scheme.https ∧ stream.tunnel = none ∧
        Asked events dial stream.peer target ∧
        Route layers uri { stream with tunnel := some target }
          (some (layers.http.serverName (layers.http.uriHost uri))) false
  | .handshaking connection =>
      Route layers uri connection.stream
          (some (layers.http.serverName (layers.http.uriHost uri)))
          connection.proxy ∧
        Granted events dial connection.stream
  | .ready connection serverName =>
      Route layers uri connection.stream serverName connection.proxy ∧
        Granted events dial connection.stream
  | .closed => True

def Event.Sound {τ : Type} (layers : Layers τ) (before : List Event) :
    Event → Prop
  | .connect _ stream request =>
      ∃ config, layers.proxy = .http config ∧ stream = ⟨config.uri, none⟩ ∧
        request.headers.get proxyAuthorization = config.credentials
  | .sent dial stream serverName absolute request attempt =>
      (∃ node trace, layers.attempt node trace request = .ok attempt) ∧
        Granted before dial stream ∧
        ∃ destination : Uri, attempt.uri.scheme = destination.scheme ∧
          attempt.uri.authority = destination.authority ∧
          Route layers destination stream serverName absolute
  | _ => True

variable {τ : Type} {layers : Layers τ} {events before : List Event}
  {dial : Nat} {stream : Stream}

theorem Asked.mono {peer : Uri} {target : String}
    (h : Asked before dial peer target) (hsub : before ⊆ events) :
    Asked events dial peer target := by
  obtain ⟨request, hmem, htarget⟩ := h
  exact ⟨request, hsub hmem, htarget⟩

theorem Granted.mono (h : Granted before dial stream)
    (hsub : before ⊆ events) : Granted events dial stream := by
  intro target htarget
  obtain ⟨hasked, status, hsuccess, hmem⟩ := h target htarget
  exact ⟨hasked.mono hsub, status, hsuccess, hsub hmem⟩

theorem granted_of_direct {peer : Uri} : Granted events dial ⟨peer, none⟩ :=
  fun _ h => by cases h

theorem SetUp.mono {uri : Uri} {stage : Stage}
    (h : SetUp layers before dial uri stage) (hsub : before ⊆ events) :
    SetUp layers events dial uri stage := by
  cases stage with
  | connecting | closed => exact h
  | tunneling stream target => exact ⟨h.1, h.2.1, h.2.2.1.mono hsub, h.2.2.2⟩
  | handshaking | ready => exact ⟨h.1, h.2.mono hsub⟩

namespace Connections

variable {connections connections' : Connections} {event : Event}

def AllSetUp (layers : Layers τ) (events : List Event)
    (connections : Connections) : Prop :=
  ∀ dial made, connections[dial]? = some made →
    SetUp layers events dial made.uri made.stage

theorem AllSetUp.setStage (h : AllSetUp layers before connections)
    (hsub : before ⊆ events) {uri : Uri} {old stage : Stage}
    (hmade : connections[dial]? = some ⟨uri, old⟩)
    (hstage : SetUp layers events dial uri stage) :
    AllSetUp layers events (setStage connections dial stage) := by
  intro other made hother
  rw [Connections.setStage, List.getElem?_modify] at hother
  obtain ⟨before, hbefore, rfl⟩ := Option.map_eq_some_iff.mp hother
  by_cases hdial : dial = other
  · subst hdial
    cases hmade.symm.trans hbefore
    rw [if_pos rfl]
    exact hstage
  · rw [if_neg hdial]
    exact (h other before hbefore).mono hsub

theorem AllSetUp.close (h : AllSetUp layers before connections)
    (hsub : before ⊆ events) :
    AllSetUp layers events (Connections.setStage connections dial .closed) := by
  intro other made hother
  rw [Connections.setStage, List.getElem?_modify] at hother
  obtain ⟨before, hbefore, rfl⟩ := Option.map_eq_some_iff.mp hother
  split
  · trivial
  · exact (h other before hbefore).mono hsub

/-! ## Steps -/

theorem connected_sound {uri : Uri} {succeeds : Bool}
    (h : AllSetUp layers before connections)
    (hmade : connections[dial]? = some ⟨uri, .connecting⟩)
    (hstep : connected layers connections dial ⟨uri, .connecting⟩ succeeds =
      (event, connections')) :
    event.Sound layers before ∧
      AllSetUp layers (before ++ [event]) connections' := by
  have hscheme : uri.scheme = some Scheme.http ∨
      uri.scheme = some Scheme.https := h dial _ hmade
  have hsub : before ⊆ before ++ [event] := List.subset_append_left _ _
  cases succeeds with
  | false =>
      cases hstep
      exact ⟨trivial, h.close hsub⟩
  | true =>
      unfold connected at hstep
      simp only [if_true] at hstep
      cases hproxy : layers.proxy with
      | direct =>
          simp only [hproxy, ProxyConnectorLayer.new,
            ProxyConnectorService.call, ProxyConnectorService.connected]
            at hstep
          cases hstep
          refine ⟨trivial, h.setStage hsub hmade ?_⟩
          unfold stageOf
          rcases hscheme with hhttp | hhttps
          · rw [if_neg (by rw [hhttp]; decide)]
            exact ⟨.direct hproxy hhttp, granted_of_direct⟩
          · rw [if_pos hhttps]
            exact ⟨.directTls hproxy hhttps, granted_of_direct⟩
      | http config =>
          simp only [hproxy, ProxyConnectorLayer.new,
            ProxyConnectorService.call, ProxyConnectorService.connected]
            at hstep
          rcases hscheme with hhttp | hhttps
          · rw [if_pos hhttp] at hstep
            cases hstep
            refine ⟨trivial, h.setStage hsub hmade ?_⟩
            unfold stageOf
            rw [if_neg (by rw [hhttp]; decide)]
            exact ⟨.proxied hproxy hhttp, granted_of_direct⟩
          · rw [if_neg (by rw [hhttps]; decide)] at hstep
            cases hconnect : connectHttps layers.http uri config with
            | error e =>
                simp only [hconnect, Except.map] at hstep
                cases hstep
                exact ⟨trivial, h.close hsub⟩
            | ok request =>
                simp only [hconnect, Except.map] at hstep
                cases hstep
                obtain ⟨host, hhost, htarget, hcredentials⟩ :=
                  connectHttps_ok hconnect
                refine ⟨⟨config, hproxy, rfl, hcredentials⟩,
                  h.setStage hsub hmade ⟨hhttps, rfl,
                    ⟨request, by simp, rfl⟩, ?_⟩⟩
                rw [htarget]
                exact .tunneled hproxy hhttps hhost

theorem answered_sound {uri : Uri} {target : String} {status : StatusCode}
    (h : AllSetUp layers before connections)
    (hmade : connections[dial]? = some ⟨uri, .tunneling stream target⟩)
    (hstep : answered connections dial stream target status =
      (event, connections')) :
    event.Sound layers before ∧
      AllSetUp layers (before ++ [event]) connections' := by
  obtain ⟨-, -, hasked, hroute⟩ :
    SetUp layers before dial uri (.tunneling stream target) := h dial _ hmade
  have hsub : before ⊆ before ++ [event] := List.subset_append_left _ _
  unfold answered tunneled at hstep
  by_cases hsuccess : status.isSuccess = true
  · simp only [if_pos hsuccess] at hstep
    cases hstep
    refine ⟨trivial, h.setStage hsub hmade ⟨hroute, ?_⟩⟩
    intro target' htarget
    cases htarget
    exact ⟨hasked.mono hsub, status, hsuccess, by simp⟩
  · simp only [if_neg hsuccess] at hstep
    cases hstep
    exact ⟨trivial, h.close hsub⟩

theorem handshake_sound {uri : Uri} {connection : ProxyConnection}
    {succeeds : Bool} (h : AllSetUp layers before connections)
    (hmade : connections[dial]? = some ⟨uri, .handshaking connection⟩)
    (hstep : handshake layers connections dial ⟨uri, .handshaking connection⟩
      connection succeeds = (event, connections')) :
    event.Sound layers before ∧
      AllSetUp layers (before ++ [event]) connections' := by
  obtain ⟨hroute, hgranted⟩ :
    SetUp layers before dial uri (.handshaking connection) := h dial _ hmade
  have hsub : before ⊆ before ++ [event] := List.subset_append_left _ _
  cases succeeds with
  | false =>
      cases hstep
      exact ⟨trivial, h.close hsub⟩
  | true =>
      cases hstep
      exact ⟨trivial, h.setStage hsub hmade ⟨hroute, hgranted.mono hsub⟩⟩

theorem step_sound (h : AllSetUp layers before connections)
    (hstep : Step layers connections event connections') :
    event.Sound layers before ∧
      AllSetUp layers (before ++ [event]) connections' := by
  have hsub : before ⊆ before ++ [event] := List.subset_append_left _ _
  obtain ⟨op, hnext⟩ := hstep
  cases op with
  | dial scheme authority =>
      obtain ⟨hscheme, heq⟩ := Option.ite_none_right_eq_some.mp hnext
      cases heq
      refine ⟨trivial, fun other made hother => ?_⟩
      rw [List.getElem?_append] at hother
      split at hother
      · exact (h other made hother).mono hsub
      · obtain rfl := List.mem_singleton.mp (List.mem_of_getElem? hother)
        simpa [SetUp] using hscheme
  | connected dial succeeds =>
      simp only [next] at hnext
      split at hnext
      · rename_i uri hmade
        exact connected_sound h hmade (Option.some.inj hnext)
      · cases hnext
  | answered dial status =>
      simp only [next] at hnext
      split at hnext
      · rename_i uri stream target hmade
        exact answered_sound h hmade (Option.some.inj hnext)
      · cases hnext
  | handshake dial succeeds =>
      simp only [next] at hnext
      split at hnext
      · rename_i uri connection hmade
        exact handshake_sound h hmade (Option.some.inj hnext)
      · cases hnext
  | send dial node trace request =>
      simp only [next] at hnext
      split at hnext
      · rename_i uri connection serverName attempt hmade hattempt
        obtain ⟨⟨hscheme, hauthority⟩, heq⟩ :=
          Option.ite_none_right_eq_some.mp hnext
        cases heq
        obtain ⟨hroute, hgranted⟩ := h dial _ hmade
        exact ⟨⟨⟨node, trace, hattempt⟩, hgranted, uri, hscheme, hauthority,
          hroute⟩, fun other made hother => (h other made hother).mono hsub⟩
      · cases hnext
  | close dial =>
      cases hnext
      exact ⟨trivial, h.close hsub⟩

theorem run_sound (run : Run (Step layers) [] events connections) :
    (∀ {before event after}, events = before ++ event :: after →
      event.Sound layers before) ∧ AllSetUp layers events connections := by
  induction run with
  | refl =>
      refine ⟨fun h => ?_, fun dial made h => by simp at h⟩
      simp at h
  | @step events connections connections' event run hstep ih =>
      obtain ⟨hsound, hsetUp⟩ := step_sound ih.2 hstep
      refine ⟨?_, hsetUp⟩
      intro before event' after heq
      rcases List.eq_nil_or_concat after with rfl | ⟨after, last, rfl⟩
      · obtain ⟨rfl, hlast⟩ := List.append_inj' heq rfl
        cases hlast
        exact hsound
      · rw [List.concat_eq_append, ← List.cons_append, ← List.append_assoc]
          at heq
        obtain ⟨hevents, -⟩ := List.append_inj' heq rfl
        exact ih.1 hevents

end Connections

theorem send_step {node : String} {trace : Option τ} {uri : Uri}
    {connections : Connections} {connection : ProxyConnection}
    {serverName : Option String} {request attempt : Parts}
    (hready : connections[dial]? =
      some ⟨uri, .ready connection serverName⟩)
    (hattempt : layers.attempt node trace request = .ok attempt)
    (hscheme : attempt.uri.scheme = uri.scheme)
    (hauthority : attempt.uri.authority = uri.authority) :
    Connections.Step layers connections (.sent dial connection.stream
      serverName connection.proxy request attempt) connections := by
  refine ⟨.send dial node trace request, ?_⟩
  simp only [Connections.next, hready, hattempt]
  exact if_pos ⟨hscheme, hauthority⟩

/-! ## Credentials -/

namespace Event

def Carries (value : List UInt8) : Event → Prop
  | .connect _ _ request =>
      request.headers.get proxyAuthorization = some value
  | .sent _ _ _ _ _ attempt =>
      attempt.headers.get proxyAuthorization = some value
  | _ => False

def SetByCaller (value : List UInt8) : Event → Prop
  | .sent _ _ _ _ request _ =>
      request.headers.get proxyAuthorization = some value
  | _ => False

/-- The message is written to the proxy, not through it, and in the clear. -/
def ReadBy (config : ProxyConfig) : Event → Prop
  | .connect _ stream _ =>
      ∃ proxy, config = .http proxy ∧ stream = ⟨proxy.uri, none⟩
  | .sent _ stream serverName _ _ _ =>
      ∃ proxy, config = .http proxy ∧ stream = ⟨proxy.uri, none⟩ ∧
        serverName = none
  | _ => False

end Event

theorem Route.readsRequests_iff {destination : Uri}
    {serverName : Option String} {absolute : Bool}
    (h : Route layers destination stream serverName absolute) :
    ReadsRequests layers.proxy destination ↔
      ∃ proxy, layers.proxy = .http proxy ∧ stream = ⟨proxy.uri, none⟩ ∧
        serverName = none := by
  cases h with
  | direct hproxy _ | directTls hproxy _ =>
      constructor
      · exact fun h => absurd hproxy h.1
      · rintro ⟨proxy, hhttp, -⟩
        rw [hproxy] at hhttp
        cases hhttp
  | proxied hproxy hscheme =>
      refine ⟨fun _ => ⟨_, hproxy, rfl, rfl⟩, fun _ => ⟨?_, hscheme⟩⟩
      rw [hproxy]
      simp
  | tunneled hproxy hscheme _ =>
      constructor
      · intro h
        rw [ReadsRequests, hscheme] at h
        exact absurd h.2 (by decide)
      · rintro ⟨proxy, -, hstream, -⟩
        cases congrArg Stream.tunnel hstream

theorem Event.Sound.credentials (htraces : layers.TracesOnly) {event : Event}
    (h : event.Sound layers before) :
    (∀ value, event.Carries value → event.SetByCaller value ∨
      layers.proxy.credentials = some value ∧ event.ReadBy layers.proxy) ∧
    (event.ReadBy layers.proxy → ∀ value,
      layers.proxy.credentials = some value → event.Carries value) := by
  cases event with
  | connect dial stream request =>
      obtain ⟨config, hproxy, hstream, hcredentials⟩ := h
      rw [← show layers.proxy.credentials = config.credentials by
        rw [hproxy]; rfl] at hcredentials
      constructor
      · intro value hvalue
        exact .inr ⟨hcredentials.symm.trans hvalue, config, hproxy, hstream⟩
      · exact fun _ value hvalue => hcredentials.trans hvalue
  | sent dial stream serverName absolute request attempt =>
      obtain ⟨⟨node, trace, hattempt⟩, -, destination, hscheme, -, hroute⟩ := h
      obtain ⟨hreads, hother⟩ :=
        Layers.attempt_proxyAuthorization htraces hattempt
      have hiff : ReadsRequests layers.proxy attempt.uri ↔
          ReadBy layers.proxy
            (.sent dial stream serverName absolute request attempt) := by
        rw [ReadsRequests, hscheme]
        exact hroute.readsRequests_iff
      constructor
      · intro value hvalue
        have hvalue : attempt.headers.get proxyAuthorization = some value :=
          hvalue
        by_cases hread : ReadsRequests layers.proxy attempt.uri
        · rw [hreads hread] at hvalue
          rcases Option.or_eq_some_iff.mp hvalue with hown | ⟨-, hcaller⟩
          · exact .inr ⟨hown, hiff.mp hread⟩
          · exact .inl hcaller
        · exact .inl ((hother hread).symm.trans hvalue)
      · intro hread value hvalue
        refine (hreads (hiff.mpr hread)).trans ?_
        rw [hvalue]
        rfl
  | dialed | connected | answered | handshaken | failed =>
      exact ⟨fun _ h => h.elim, fun h => h.elim⟩

theorem sound_of_mem {connections : Connections} {event : Event}
    (run : Run (Connections.Step layers) [] events connections)
    (hmem : event ∈ events) : ∃ before, event.Sound layers before := by
  obtain ⟨before, after, rfl⟩ := List.append_of_mem hmem
  exact ⟨before, (Connections.run_sound run).1 rfl⟩

/-- Whatever connections are made and whatever requests are sent over them,
the credentials of the proxy are only in messages that the proxy itself reads,
and they are in all of these.  What else has the header has it from the
caller. -/
theorem credentials_stay_with_proxy (htraces : layers.TracesOnly)
    {connections : Connections}
    (run : Run (Connections.Step layers) [] events connections) :
    ∀ event ∈ events,
      (∀ value, event.Carries value → event.SetByCaller value ∨
        layers.proxy.credentials = some value ∧
          event.ReadBy layers.proxy) ∧
      (event.ReadBy layers.proxy → ∀ value,
        layers.proxy.credentials = some value → event.Carries value) := by
  intro event hmem
  obtain ⟨before, hsound⟩ := sound_of_mem run hmem
  exact hsound.credentials htraces

/-! ## Requests -/

/-- A part of `http::Uri`. -/
def parseFoobar (text : String) : Option Uri :=
  if text = "foobar.com:443" then
    some ⟨none, some "foobar.com:443", "", none⟩
  else if text = "https://foobar.com/fizz/buzz" then
    some ⟨some Scheme.https, some "foobar.com", "/fizz/buzz", none⟩
  else none

def authorityHost (authority : String) : String :=
  String.ofList (authority.toList.takeWhile (· ≠ ':'))

def foobarHttp : Http where
  parse := parseFoobar
  tryFrom := Client.visibleBytes
  host := authorityHost
  portU16 := fun _ => none
  serverName := (·.getD "")

def proxyUri : Uri := ⟨some Scheme.http, some "127.0.0.1:1234", "/", none⟩

/-- The bytes of `Basic YWRtaW46aHVudGVyMg==`. -/
def hunter : List UInt8 :=
  [66, 97, 115, 105, 99, 32, 89, 87, 82, 116, 97, 87, 52, 54, 97, 72, 86, 117,
    100, 71, 86, 121, 77, 103, 61, 61]

def foobarLayers : Layers (List UInt8) where
  http := foobarHttp
  proxy := .http ⟨proxyUri, some hunter⟩
  userAgent := ⟨.new ⟨"foobar", "1.0.0"⟩⟩
  errorParameterFormat := .json
  setTraceContext := fun trace headers => headers.insert "x-b3-traceid" trace

theorem foobarLayers_tracesOnly : foobarLayers.TracesOnly := by
  intro context headers name hname
  refine get_insert_of_ne ?_
  rintro rfl
  exact hname (by decide)

def fizzBuzz : Parts where
  method := .get
  uri := ⟨none, none, "/fizz/buzz", none⟩
  headers := [("accept", [42, 47, 42])]
  endpoint := some ⟨"serviceName", some "2.3.4"⟩

theorem fizzBuzz_attempt : ∃ attempt,
    foobarLayers.attempt "https://foobar.com/" (some [49]) fizzBuzz =
      .ok attempt ∧
    attempt.uri =
      ⟨some Scheme.https, some "foobar.com", "/fizz/buzz", none⟩ := by
  have hprimary : Client.Agent.new "foobar" "1.0.0" =
      .ok ⟨"foobar", "1.0.0"⟩ :=
    Client.Agent.new_of_valid
      (Client.validName_of_letters rfl (by decide) (by decide))
      (Client.validVersion_of_dotted ['1'] [['0'], ['0']] rfl (by decide))
  have hagent : Client.Agent.new "serviceName" "2.3.4" =
      .ok ⟨"serviceName", "2.3.4"⟩ :=
    Client.Agent.new_of_valid
      (Client.validName_of_letters rfl (by decide) (by decide))
      (Client.validVersion_of_dotted ['2'] [['3'], ['4']] rfl (by decide))
  have huri : NodeUriService.call parseFoobar (some "https://foobar.com/")
      fizzBuzz.uri = .ok
        ⟨some Scheme.https, some "foobar.com", "/fizz/buzz", none⟩ := by
    rfl
  have huserAgent := @Client.UserAgentService.call_of_agent _
    Client.visibleBytes_accepts foobarLayers.userAgent (.new hprimary)
    ⟨"serviceName", some "2.3.4"⟩ _ hagent
  have htryFrom : foobarLayers.http.tryFrom = Client.visibleBytes := rfl
  have hendpoint : fizzBuzz.endpoint =
    some ⟨"serviceName", some "2.3.4"⟩ := rfl
  exact Layers.attempt_of huri htryFrom hendpoint
    (fun headers => ⟨_, huserAgent headers⟩) _

def connectFoobar : Event :=
  .connect 0 ⟨proxyUri, none⟩ ⟨"foobar.com:443",
    [(proxyAuthorization, hunter), ("host", "foobar.com:443".toUTF8.toList)]⟩

def foobarTunnel (stage : Stage) : Connections :=
  [⟨⟨some Scheme.https, some "foobar.com", "/", none⟩, stage⟩]

def foobarStream : Stream := ⟨proxyUri, some "foobar.com:443"⟩

theorem foobar_run : ∃ attempt,
    Run (Connections.Step foobarLayers) []
      [.dialed proxyUri, connectFoobar, .answered 0 .ok, .handshaken 0,
        .sent 0 foobarStream (some "foobar.com") false fizzBuzz attempt]
      (foobarTunnel (.ready ⟨foobarStream, false⟩ (some "foobar.com"))) := by
  obtain ⟨attempt, hattempt, huri⟩ := fizzBuzz_attempt
  have dialed : Connections.Step foobarLayers [] (.dialed proxyUri)
      (foobarTunnel .connecting) := ⟨.dial Scheme.https "foobar.com", rfl⟩
  have connect : Connections.Step foobarLayers (foobarTunnel .connecting)
      connectFoobar
      (foobarTunnel (.tunneling ⟨proxyUri, none⟩ "foobar.com:443")) :=
    ⟨.connected 0 true, rfl⟩
  have answered : Connections.Step foobarLayers
      (foobarTunnel (.tunneling ⟨proxyUri, none⟩ "foobar.com:443"))
      (.answered 0 .ok)
      (foobarTunnel (.handshaking ⟨foobarStream, false⟩)) :=
    ⟨.answered 0 .ok, rfl⟩
  have handshaken : Connections.Step foobarLayers
      (foobarTunnel (.handshaking ⟨foobarStream, false⟩)) (.handshaken 0)
      (foobarTunnel (.ready ⟨foobarStream, false⟩ (some "foobar.com"))) :=
    ⟨.handshake 0 true, rfl⟩
  have hready : (foobarTunnel
      (.ready ⟨foobarStream, false⟩ (some "foobar.com")))[0]? =
    some ⟨⟨some Scheme.https, some "foobar.com", "/", none⟩,
      .ready ⟨foobarStream, false⟩ (some "foobar.com")⟩ := rfl
  have sent := send_step hready hattempt (by rw [huri]) (by rw [huri])
  exact ⟨attempt, ((((Run.refl.step dialed).step connect).step
    answered).step handshaken).step sent⟩

/-- The proxy gets its credentials, and the server does not. -/
theorem foobar_credentials :
    connectFoobar.Carries hunter ∧ ∃ attempt,
      ¬ (Event.sent 0 foobarStream (some "foobar.com") false fizzBuzz
        attempt).Carries hunter := by
  obtain ⟨attempt, run⟩ := foobar_run
  have hmessages := credentials_stay_with_proxy foobarLayers_tracesOnly run
  constructor
  · exact (hmessages connectFoobar (by simp)).2 ⟨_, rfl, rfl⟩ hunter rfl
  · refine ⟨attempt, fun hcarries => ?_⟩
    rcases (hmessages _ (by simp)).1 hunter hcarries with hcaller | ⟨-, hread⟩
    · have hcaller : HeaderMap.get fizzBuzz.headers proxyAuthorization =
        some hunter := hcaller
      exact absurd hcaller (by decide)
    · obtain ⟨proxy, -, hstream, -⟩ := hread
      cases congrArg Stream.tunnel hstream

end ConjureRuntime.Proxy
