import Xul.Net.Http.HttpConnection
import Xul.Net.UriNormalForm

/-!
# Where a connection connects to

`connect_host` asserts that the address of the request has a host and a port.  The addresses
come from the caller of a request and from the Location of a redirection, and both go
through `simple_uri::parse`, which accepts far more: relative references, addresses without
a slash behind the host, unknown schemes and any number for a port.

`connectable_iff` says which texts are addresses that can be connected to.
-/

set_option autoImplicit false

namespace Xul

/-- An integer converted to `uint16_t`. -/
def toUint16 (value : Int) : Int := value % 65536

/-- What `connect_host` asserts; the port is a `uint16_t` in `m_host_address`. -/
structure ConnectAssertions (url : SimpleUri) : Prop where
  host : url.host ≠ []
  port : 0 < url.port
  addressPort : 0 < toUint16 url.port ∧ toUint16 url.port < 65535

/-- There is a host and a port to connect to, and no assertion fails. -/
structure Connectable (url : SimpleUri) : Prop where
  host : url.host ≠ []
  port : 1 ≤ url.port ∧ url.port ≤ 65535
  assertions : ConnectAssertions url

theorem connectable_url_iff {url : SimpleUri} :
    Connectable url ↔ url.host ≠ [] ∧ 0 < url.port ∧ url.port < 65535 := by
  constructor
  · rintro ⟨host, ⟨low, high⟩, -, -, -, below⟩
    rw [toUint16] at below
    exact ⟨host, by omega, by omega⟩
  · rintro ⟨host, low, high⟩
    have same : toUint16 url.port = url.port := Int.emod_eq_of_lt (by omega) (by omega)
    exact ⟨host, ⟨by omega, by omega⟩, host, low, by rw [same]; exact ⟨low, high⟩⟩

/-! ## The addresses that name a host and a port -/

/-- A host with its port or, behind a scheme that has one, without; a slash follows. -/
inductive NamesPort : Bytes → Prop
  | written {scheme host portText path : Bytes} {port : Int}
      (alpha : ∀ c ∈ scheme, isAlpha c = true) (named : host ≠ [])
      (hostPlain : 47 ∉ host ∧ 58 ∉ host) (portPlain : 47 ∉ portText)
      (scanned : scanInt portText = some port) (low : 0 < port) (high : port < 65535) :
      NamesPort (scheme ++ ascii "://" ++ (host ++ 58 :: portText ++ 47 :: path))
  | wellKnown {scheme host path : Bytes} (known : scheme ∈ WellKnownPorts.portTable.map (ascii ·.1))
      (named : host ≠ []) (hostPlain : 47 ∉ host ∧ 58 ∉ host) :
      NamesPort (scheme ++ ascii "://" ++ (host ++ 47 :: path))

namespace WellKnownPorts

/-- Every port of the table can be connected to. -/
theorem getPort_of_mem {scheme : Bytes} (known : scheme ∈ portTable.map (ascii ·.1)) :
    0 < getPort scheme 0 ∧ getPort scheme 0 < 65535 := by
  have all : ∀ scheme ∈ portTable.map (ascii ·.1),
      0 < getPort scheme 0 ∧ getPort scheme 0 < 65535 := by decide +kernel
  exact all scheme known

theorem alpha_of_mem {scheme : Bytes} (known : scheme ∈ portTable.map (ascii ·.1)) :
    scheme ≠ [] ∧ ∀ c ∈ scheme, isAlpha c = true := by
  have all : ∀ scheme ∈ portTable.map (ascii ·.1),
      scheme ≠ [] ∧ scheme.all isAlpha = true := by decide +kernel
  obtain ⟨nonempty, letters⟩ := all scheme known
  exact ⟨nonempty, List.all_eq_true.mp letters⟩

theorem mem_of_getPort {scheme : Bytes} (positive : 0 < getPort scheme 0) :
    scheme ∈ portTable.map (ascii ·.1) := by
  rw [getPort] at positive
  cases found : portTable.find? fun row => ascii row.1 == scheme with
  | none =>
      rw [found] at positive
      exact absurd positive (lt_irrefl 0)
  | some row =>
      refine List.mem_map.mpr ⟨row, List.mem_of_find?_eq_some found, ?_⟩
      have isScheme := List.find?_some found
      exact beq_iff_eq.mp isScheme

end WellKnownPorts

namespace SimpleUri

/-- What follows a scheme, when it is a host and a slash. -/
theorem parseWithScheme_host {uri : SimpleUri} (front : Bytes) {host : Bytes} (named : host ≠ [])
    (plain : 47 ∉ host ∧ 58 ∉ host) (path : Bytes) (schemed : uri.scheme ≠ []) :
    (uri.parseWithScheme (front ++ (host ++ 47 :: path)) front.length).2.host = host ∧
      (uri.parseWithScheme (front ++ (host ++ 47 :: path)) front.length).2.port =
        WellKnownPorts.getPort uri.scheme 0 := by
  rw [parseWithScheme_slash uri front plain.1 named, parseHostAndPort_host uri front plain.2]
  simp only [if_true, if_neg schemed]
  exact parsePath_host_port _ _ _

/-- What follows a scheme, when it is a host with a port and a slash. -/
theorem parseWithScheme_port {uri : SimpleUri} (front : Bytes) {host portText : Bytes}
    (plain : 47 ∉ host ∧ 58 ∉ host) (portPlain : 47 ∉ portText) (path : Bytes) :
    (uri.parseWithScheme (front ++ (host ++ 58 :: portText ++ 47 :: path)) front.length).2.host =
        host ∧
      (uri.parseWithScheme (front ++ (host ++ 58 :: portText ++ 47 :: path)) front.length).2.port =
        (scanInt (cStr portText)).getD uri.port := by
  have authority : 47 ∉ host ++ 58 :: portText := by
    rw [List.mem_append, List.mem_cons, not_or, not_or]
    exact ⟨plain.1, by decide, portPlain⟩
  have text : host ++ 58 :: portText ++ 47 :: path = host ++ 58 :: (portText ++ 47 :: path) := by
    rw [List.append_assoc, List.cons_append]
  have length : (host ++ 58 :: portText).length = host.length + 1 + portText.length := by
    rw [List.length_append, List.length_cons]
    omega
  rw [parseWithScheme_slash uri front authority (by simp), text, length,
    parseHostAndPort_port uri front plain.2]
  cases scanInt (cStr portText) with
  | none => exact ⟨rfl, rfl⟩
  | some port =>
      simp only [if_true]
      exact parsePath_host_port _ _ _

/-- A host and a port follow the scheme exactly when they are named. -/
theorem connectable_of_namesPort {s : Bytes} (clean : 0 ∉ s) (names : NamesPort s) :
    Connectable (parse s).2 := by
  rw [connectable_url_iff]
  cases names with
  | @written scheme host portText path port alpha named hostPlain portPlain scanned low high =>
      have portClean : 0 ∉ portText := by
        intro member
        exact clean (by simp [member])
      rw [parse_of_scheme alpha clean]
      obtain ⟨isHost, isPort⟩ := parseWithScheme_port (scheme ++ ascii "://") hostPlain portPlain
        path
      rw [isHost, isPort, cStr_of_no_zero portClean, scanned]
      exact ⟨named, low, high⟩
  | @wellKnown scheme host path known named hostPlain =>
      obtain ⟨schemed, alpha⟩ := WellKnownPorts.alpha_of_mem known
      rw [parse_of_scheme alpha clean]
      obtain ⟨isHost, isPort⟩ := @parseWithScheme_host
        { clear with originalString := scheme ++ ascii "://" ++ (host ++ 47 :: path), scheme }
        (scheme ++ ascii "://") host named hostPlain path schemed
      rw [isHost, isPort]
      exact ⟨named, WellKnownPorts.getPort_of_mem known⟩

theorem namesPort_of_connectable {s : Bytes} (clean : 0 ∉ s)
    (connectable : Connectable (parse s).2) : NamesPort s := by
  obtain ⟨named, low, high⟩ := connectable_url_iff.mp connectable
  by_cases hasScheme : HasScheme s
  · obtain ⟨scheme, rest, alpha, rfl⟩ := hasScheme
    rw [parse_of_scheme alpha clean] at named low high
    by_cases slash : 47 ∈ rest
    · obtain ⟨authority, path, rfl, plain⟩ := List.eq_append_cons_of_mem slash
      by_cases empty : authority = []
      · subst empty
        rw [List.nil_append, parseWithScheme_slash_nil] at named
        exact absurd (parsePath_host_port ..).1 named
      · obtain ⟨host, portText, rfl, hostPlain⟩ := exists_optional 58 authority
        rw [List.mem_append, not_or] at plain
        cases portText with
        | none =>
            rw [optional, List.append_nil] at named low clean empty ⊢
            rw [parseWithScheme_slash _ _ plain.1 empty, parseHostAndPort_host _ _ hostPlain] at low
            rw [if_pos rfl, (parsePath_host_port ..).2] at low
            by_cases schemed : scheme = []
            · rw [if_pos schemed] at low
              exact absurd low (lt_irrefl 0)
            · rw [if_neg schemed] at low
              exact .wellKnown (WellKnownPorts.mem_of_getPort low) empty ⟨plain.1, hostPlain⟩
        | some portText =>
            have portPlain : 47 ∉ portText := fun member =>
              plain.2 (List.mem_cons_of_mem 58 member)
            have portClean : 0 ∉ portText := by
              intro member
              exact clean (by simp [optional, member])
            rw [optional] at named low high ⊢
            obtain ⟨isHost, isPort⟩ := @parseWithScheme_port
              { clear with originalString := scheme ++ ascii "://" ++
                (host ++ 58 :: portText ++ 47 :: path), scheme }
              (scheme ++ ascii "://") host portText ⟨plain.1, hostPlain⟩ portPlain path
            rw [isHost] at named
            rw [isPort, cStr_of_no_zero portClean] at low high
            cases scanned : scanInt portText with
            | none =>
                rw [scanned] at low
                exact absurd low (lt_irrefl 0)
            | some port =>
                rw [scanned] at low high
                exact .written alpha named ⟨plain.1, hostPlain⟩ portPlain scanned low high
    · rw [parseWithScheme_no_slash _ _ slash] at named
      exact absurd rfl named
  · rw [parse_of_not_hasScheme clean hasScheme] at named
    exact absurd (parsePath_host_port ..).1 named

end SimpleUri

/-! ## The ways to `connect_host` -/

/-- The addresses with which `connect_host` is reached from a text: the url of a request that
does not use the connection as it is, and the Location of a redirection, for which the
connection is closed before. -/
inductive ReachesConnectHost (zlib : Zlib) (env : HttpConnectionEnvironment) (text : Bytes) :
    SimpleUri → Prop
  | request (conn : HttpConnection zlib) {method : Bytes} {headers : List (Bytes × Bytes)}
      {info : HttpConnectionRequestInfo zlib}
      (prepared : conn.prepareRequest method text headers = some info)
      (reconnects : conn.needReconnect info = true) : ReachesConnectHost zlib env text info.url
  | redirection (conn : HttpConnection zlib) (info : HttpConnectionRequestInfo zlib)
      (goes_on : info.redirectTimes ≤ conn.options.maxRedirects) (given : text ≠ [])
      (accepted : (SimpleUri.parse text).1 = true) :
      ReachesConnectHost zlib env text
        (info.redirect (HttpConnection.inner env) text conn).info.url

variable {zlib : Zlib} {env : HttpConnectionEnvironment} {text : Bytes}

namespace HttpConnection

variable {conn : HttpConnection zlib}

/-- A connection that was closed connects again. -/
theorem needReconnect_close (info : HttpConnectionRequestInfo zlib) :
    conn.close.needReconnect info = true := by
  simp [needReconnect, close, ClientSocket.create]

end HttpConnection

theorem redirect_url {info : HttpConnectionRequestInfo zlib} {conn : HttpConnection zlib}
    (goes_on : info.redirectTimes ≤ conn.options.maxRedirects) (given : text ≠ [])
    (accepted : (SimpleUri.parse text).1 = true) :
    (info.redirect (HttpConnection.inner env) text conn).info.url = (SimpleUri.parse text).2 := by
  rw [HttpConnectionRequestInfo.redirect]
  have notTooMany : ¬ (HttpConnection.inner env).getMaxRedirects conn < info.redirectTimes :=
    not_lt.mpr goes_on
  have valid : ¬ (text = [] ∨ (SimpleUri.parse text).1 = false) := by
    rw [not_or, accepted]
    exact ⟨given, by decide⟩
  rw [if_neg notTooMany]
  simp only [if_neg valid]
  rfl

/-- What reaches `connect_host` was accepted and is what was parsed. -/
theorem ReachesConnectHost.parsed {url : SimpleUri}
    (reaches : ReachesConnectHost zlib env text url) :
    (SimpleUri.parse text).1 = true ∧ url = (SimpleUri.parse text).2 := by
  cases reaches with
  | request conn prepared reconnects =>
      obtain ⟨accepted, new⟩ := HttpConnection.of_prepareRequest prepared
      exact ⟨accepted, @new _ HttpConnectionRequestInfo.url fun _ _ => rfl⟩
  | redirection conn info goes_on given accepted =>
      exact ⟨accepted, redirect_url goes_on given accepted⟩

/-- A closed connection reaches `connect_host` with every address that is accepted. -/
theorem reachesConnectHost_of_accepted (accepted : (SimpleUri.parse text).1 = true) :
    ReachesConnectHost zlib env text (SimpleUri.parse text).2 := by
  let conn : HttpConnection zlib := (HttpConnection.create HttpConnectionOptions.create).close
  have valid : ¬ ((SimpleUri.parse text).1 = false ∨ ascii "GET" = []) := by
    rw [accepted]
    decide
  obtain ⟨info, prepared⟩ : ∃ info, conn.prepareRequest (ascii "GET") text [] = some info :=
    ⟨_, if_neg valid⟩
  have url : info.url = (SimpleUri.parse text).2 :=
    @(HttpConnection.of_prepareRequest prepared).2 _ HttpConnectionRequestInfo.url fun _ _ => rfl
  rw [← url]
  exact .request conn prepared (HttpConnection.needReconnect_close info)

/-- **A text that is accepted can be connected to exactly when it names a host and a port.** -/
theorem connectable_iff (zlib : Zlib) (env : HttpConnectionEnvironment) (text : Bytes) :
    (∀ url, ReachesConnectHost zlib env text url → Connectable url) ↔
      ((SimpleUri.parse text).1 = true → NamesPort (cStr text)) := by
  have clean := zero_not_mem_cStr text
  constructor
  · intro connectable accepted
    have reached := connectable _ (reachesConnectHost_of_accepted accepted)
    rw [← SimpleUri.parse_cStr] at reached
    exact SimpleUri.namesPort_of_connectable clean reached
  · intro names url reaches
    obtain ⟨accepted, rfl⟩ := reaches.parsed
    rw [← SimpleUri.parse_cStr]
    exact SimpleUri.connectable_of_namesPort clean (names accepted)

/-- A relative reference has no host, and the assertion of the port excludes the last one. -/
theorem relative_reference_not_connectable :
    ¬ (∀ url, ReachesConnectHost .refusing ⟨fun _ => true, fun _ => false⟩
        (ascii "/index.html") url → Connectable url) ∧
      ¬ (∀ url, ReachesConnectHost .refusing ⟨fun _ => true, fun _ => false⟩
        (ascii "http://h:65535/") url → Connectable url) := by
  constructor
  · intro connectable
    have accepted : (SimpleUri.parse (ascii "/index.html")).1 = true := by decide +kernel
    exact (connectable _ (reachesConnectHost_of_accepted accepted)).host (by decide +kernel)
  · intro connectable
    have accepted : (SimpleUri.parse (ascii "http://h:65535/")).1 = true := by decide +kernel
    have asserted := (connectable _ (reachesConnectHost_of_accepted accepted)).assertions
    exact absurd asserted.addressPort.2 (by decide +kernel)

end Xul
