import HeadlessMcp.Async.Solo
import HeadlessMcp.OAuth2.Discipline

/-!
# PKCE

The authorization request carries a challenge and the method that it was made with, and the token
request carries the verifier. `do_authorization_code` makes the challenge by S256 where the server
advertises it and else sends the verifier itself, but it names S256 as the method always: the two
requests are consistent exactly where S256 is advertised (`pkce_consistent_iff`).

A run of the grant leaves both requests in the world of the manager: the URL that the browser was
sent to, and the form that was posted.
-/

namespace HeadlessMcp

open Async

variable {ι : Type} {m : Manager}

/-! ## The two requests -/

/-- The authorization request. These are the parameters of its query, and the endpoint. -/
structure AuthorizationRequest : Type where
  endpoint : String
  clientId : String
  redirectUri : String
  codeChallenge : String
  codeChallengeMethod : String
  scope : String

/-- Its URL. -/
def AuthorizationRequest.url (r : AuthorizationRequest) : String :=
  let url := s!"{r.endpoint}?response_type=code&client_id={r.clientId}" ++
    s!"&redirect_uri={r.redirectUri}&code_challenge={r.codeChallenge}" ++
    s!"&code_challenge_method={r.codeChallengeMethod}"
  if r.scope = "" then url else url ++ s!"&scope={r.scope}"

/-- The transform of a verifier under a method (RFC 7636); other methods have none. -/
def Manager.pkceTransform (m : Manager) (method verifier : String) : Option String :=
  match method with
  | "S256" => some (m.s256 verifier)
  | "plain" => some verifier
  | _ => none

/-- The challenge is the transform of the verifier under the method that is sent with it. -/
def PkceConsistent (m : Manager) (r : AuthorizationRequest) (verifier : String) : Prop :=
  m.pkceTransform r.codeChallengeMethod verifier = some r.codeChallenge

/-- The methods that the server advertises. Metadata that name no methods advertise none. -/
def advertisedMethods (discovered : Option AuthServerMetadata) : List String :=
  (discovered.bind AuthServerMetadata.codeChallengeMethodsSupported).getD []

/-- The authorization request of `do_authorization_code`. -/
def Manager.authorizationRequest (m : Manager) (discovered : Option AuthServerMetadata)
    (tokenEndpoint clientId codeVerifier : String) : AuthorizationRequest where
  endpoint := (discovered.bind AuthServerMetadata.authorizationEndpoint).getD tokenEndpoint
  clientId := clientId
  redirectUri := s!"http://localhost:{m.config.callbackPort}/callback"
  codeChallenge := if "S256" ∈ advertisedMethods discovered then m.s256 codeVerifier
    else codeVerifier
  codeChallengeMethod := "S256"
  scope := m.config.scopes.getD (((discovered.bind AuthServerMetadata.scopesSupported).map
    (" ".intercalate ·)).getD "")

/-- It is consistent with the verifier exactly where S256 is advertised: no verifier is its own
hash. -/
theorem pkceConsistent_authorizationRequest {discovered : Option AuthServerMetadata}
    {tokenEndpoint clientId codeVerifier : String} (hsha : ∀ verifier, m.s256 verifier ≠ verifier) :
    PkceConsistent m (m.authorizationRequest discovered tokenEndpoint clientId codeVerifier)
      codeVerifier ↔ "S256" ∈ advertisedMethods discovered := by
  have htransform : PkceConsistent m
      (m.authorizationRequest discovered tokenEndpoint clientId codeVerifier) codeVerifier ↔
        m.s256 codeVerifier = if "S256" ∈ advertisedMethods discovered then m.s256 codeVerifier
          else codeVerifier := by
    simp only [PkceConsistent, Manager.authorizationRequest, Manager.pkceTransform, Option.some.injEq]
  rw [htransform]
  split
  · rename_i hadvertised
    exact iff_of_true rfl hadvertised
  · rename_i hsilent
    exact iff_of_false (hsha codeVerifier) hsilent

/-! ## The grant -/

section Grant

variable {i : ι} {tokenEndpoint backendId : String} {s : OAuthWorld ι}

/-- Nothing has been sent to the user or to the token endpoint, and the metadata is the same. -/
structure Unsent (s t : OAuthWorld ι) : Prop where
  discovered : t.discovered = s.discovered
  exchanges : t.exchanges = s.exchanges
  browser : t.browser = s.browser

/-- The operations that send nothing. -/
def OAuthOp.silent : {β : Type} → OAuthOp β → Prop
  | _, .writeDiscovered _ | _, .postToken _ _ | _, .openBrowser _ => False
  | _, _ => True

theorem unsent_exec {β : Type} {o : OAuthOp β} {e : OAuthChoice} {t u : OAuthWorld ι} {b : β}
    (ho : o.silent) (ht : Unsent s t) (h : (oauthMachine ι).exec i β o e t = some (b, u)) :
    Unsent s u := by
  obtain ⟨hdiscovered, hexchanges, hbrowser⟩ := ht
  cases o <;> simp only [oauthMachine, OAuthWorld.exec, OAuthWorld.tick] at h <;>
    first
      | exact absurd ho id
      | (constructor <;> grind)

theorem wp_unsent {α : Type} {p : Prog OAuthOp α} {t : OAuthWorld ι} (hp : p.Uses OAuthOp.silent)
    (ht : Unsent s t) : (oauthMachine ι).wp i p (fun _ u => Unsent s u) t :=
  (oauthMachine ι).wp_of_uses (fun _ _ _ _ _ _ ho ht h => unsent_exec ho ht h) hp ht

theorem registerClient_silent : m.registerClient.Uses OAuthOp.silent :=
  registerClient_looks.mono fun o ho => by
    obtain ⟨hquiet, halone⟩ := ho
    cases o <;> trivial

theorem authorizationClientId_silent : m.authorizationClientId.Uses OAuthOp.silent := by
  unfold Manager.authorizationClientId
  split
  · trivial
  · refine ⟨trivial, fun d => ?_⟩
    simp only [Prog.ret_bind]
    split
    · trivial
    · refine registerClient_silent.bind fun reg => ?_
      split
      · trivial
      · exact ⟨trivial, fun _ => trivial⟩

theorem cacheTokenResponse_silent {body : Value} :
    (m.cacheTokenResponse body backendId).Uses OAuthOp.silent := by
  unfold Manager.cacheTokenResponse
  split
  · trivial
  · refine ⟨trivial, fun now => ?_⟩
    simp only [Prog.ret_bind]
    split
    · trivial
    · refine ⟨trivial, fun entry => ?_⟩
      cases entry with
      | none => trivial
      | some entry =>
        simp only [Prog.ret_bind]
        split
        · exact ⟨trivial, fun _ => ⟨trivial, fun _ => trivial⟩⟩
        · trivial

theorem tokenAnswer_silent {reply : JsonReply} {sendFailed : String} :
    (m.tokenAnswer reply sendFailed backendId).Uses OAuthOp.silent := by
  unfold Manager.tokenAnswer
  split
  · trivial
  · trivial
  · split
    · exact cacheTokenResponse_silent
    · trivial

/-- Obtaining the code sends the user to the URL. -/
theorem wp_obtainCode {authUrl : String} :
    (oauthMachine ι).wp i (m.obtainCode authUrl)
      (fun _ t => t.exchanges = s.exchanges ∧ t.browser = authUrl :: s.browser) s := by
  simp only [Manager.obtainCode, Prog.bind_eq, Prog.perform_bind]
  intro e opened t h
  obtain ⟨rfl, rfl⟩ := Prod.mk.inj (Option.some.inj h)
  let u : OAuthWorld ι := { s with browser := authUrl :: s.browser }
  -- the rest sends nothing
  have rest {p : Prog OAuthOp (BackendResult String)} (hp : p.Uses OAuthOp.silent) :
      (oauthMachine ι).wp i p
        (fun _ t => t.exchanges = s.exchanges ∧ t.browser = authUrl :: s.browser) u := by
    have hu : Unsent u u := ⟨rfl, rfl, rfl⟩
    exact Machine.wp_mono _ (wp_unsent hp hu) fun _ _ ht => ⟨ht.exchanges, ht.browser⟩
  refine rest ?_
  dsimp only
  split
  · refine ⟨trivial, fun r => ?_⟩
    dsimp only
    split
    · trivial
    · split
      · trivial
      · refine ⟨trivial, fun a => ?_⟩
        dsimp only
        split <;> trivial
  · refine ⟨trivial, fun r => ?_⟩
    dsimp only
    split
    · trivial
    · split <;> trivial

/-- What the grant leaves: no token request, or one after the authorization request that belongs
to it. -/
def Granted (m : Manager) (tokenEndpoint : String) (s t : OAuthWorld ι) : Prop :=
  t.exchanges = s.exchanges ∨
    ∃ clientId code codeVerifier reply,
      t.exchanges = (.authorizationCode clientId code
        s!"http://localhost:{m.config.callbackPort}/callback" codeVerifier, reply) :: s.exchanges ∧
      t.browser = (m.authorizationRequest s.discovered tokenEndpoint clientId codeVerifier).url ::
        s.browser

theorem wp_doAuthorizationCode :
    (oauthMachine ι).wp i (m.doAuthorizationCode tokenEndpoint backendId)
      (fun _ t => Granted m tokenEndpoint s t) s := by
  simp only [Manager.doAuthorizationCode, Prog.bind_eq, Prog.perform_bind]
  intro e discovered t h
  obtain ⟨rfl, rfl⟩ := Prod.mk.inj (Option.some.inj h)
  intro e discovered t h
  obtain ⟨rfl, rfl⟩ := Prod.mk.inj (Option.some.inj h)
  rw [Machine.wp_bind]
  have hstart : Unsent s s := ⟨rfl, rfl, rfl⟩
  refine Machine.wp_mono _ (wp_unsent authorizationClientId_silent hstart) ?_
  rintro (r | _) t ht
  · rcases r with err | clientId
    · exact .inl ht.exchanges
    · intro e codeVerifier u h
      obtain ⟨rfl, rfl⟩ := Prod.mk.inj (Option.some.inj h)
      -- what follows once the scopes are known
      have exchange {present : BackendResult String → Prog OAuthOp (BackendResult String)}
          (herror : ∀ e, present (.error e) = .ret (.error e))
          (hok : ∀ code, present (.ok code) = .op (.postToken tokenEndpoint
            (.authorizationCode clientId code
              s!"http://localhost:{m.config.callbackPort}/callback" e.text)) fun reply =>
                m.tokenAnswer reply "token request failed" backendId) :
          (oauthMachine ι).wp i ((m.obtainCode (m.authorizationRequest s.discovered
            tokenEndpoint clientId e.text).url).bind present)
            (fun _ t => Granted m tokenEndpoint s t) t := by
        rw [Machine.wp_bind]
        refine Machine.wp_mono _ wp_obtainCode ?_
        rintro (r | _) u ⟨hexchanges, hbrowser⟩
        · rcases r with err | code
          · simp only [Machine.andThen, herror]
            exact .inl (hexchanges.trans ht.exchanges)
          · simp only [Machine.andThen, hok]
            intro e' reply v h
            obtain ⟨rfl, rfl⟩ := Prod.mk.inj (Option.some.inj h)
            let v : OAuthWorld ι := { u with exchanges := (.authorizationCode clientId code
              s!"http://localhost:{m.config.callbackPort}/callback" e.text, e'.reply) ::
                u.exchanges }
            have hposted : Unsent v v := ⟨rfl, rfl, rfl⟩
            refine Machine.wp_mono _ (wp_unsent tokenAnswer_silent hposted) fun _ w hw => ?_
            refine .inr ⟨clientId, code, e.text, e'.reply, ?_, ?_⟩
            · rw [hw.exchanges, ← ht.exchanges, ← hexchanges]
            · rw [hw.browser, ← ht.browser]
              exact hbrowser
        · exact .inl (hexchanges.trans ht.exchanges)
      have hmethod : ∀ method, method = "S256" →
          s!"&code_challenge_method={method}" = "&code_challenge_method=S256" := by
        rintro _ rfl
        decide
      dsimp only
      rcases hscopes : m.config.scopes with _ | scopes
      · intro e' discovered u h
        obtain ⟨rfl, rfl⟩ := Prod.mk.inj (Option.some.inj h)
        simp only [AuthorizationRequest.url, Manager.authorizationRequest, hmethod _ rfl, hscopes,
          Option.getD_none] at exchange
        rw [ht.discovered]
        exact exchange (fun _ => rfl) fun _ => rfl
      · simp only [AuthorizationRequest.url, Manager.authorizationRequest, hmethod _ rfl, hscopes,
          Option.getD_some] at exchange
        exact exchange (fun _ => rfl) fun _ => rfl
  · exact .inl ht.exchanges

end Grant

/-- **The two requests are consistent exactly where S256 is advertised.** Whenever the grant sends
a token request, it has sent the user to the URL of an authorization request, and the challenge
and the method of that request fit the verifier of the token request if and only if the discovered
metadata names S256. -/
theorem pkce_consistent_iff {i : ι} {tokenEndpoint backendId : String}
    (hsha : ∀ verifier, m.s256 verifier ≠ verifier) {es : List OAuthChoice}
    {x : Outcome (BackendResult String)} {s t : OAuthWorld ι}
    (hrun : (oauthMachine ι).solo i (m.doAuthorizationCode tokenEndpoint backendId) es s =
      some (x, t)) (hposted : t.exchanges ≠ s.exchanges) :
    ∃ clientId code codeVerifier reply,
      t.exchanges = (.authorizationCode clientId code
        s!"http://localhost:{m.config.callbackPort}/callback" codeVerifier, reply) :: s.exchanges ∧
      t.browser = (m.authorizationRequest s.discovered tokenEndpoint clientId codeVerifier).url ::
        s.browser ∧
      (PkceConsistent m (m.authorizationRequest s.discovered tokenEndpoint clientId codeVerifier)
        codeVerifier ↔ "S256" ∈ advertisedMethods s.discovered) := by
  obtain ⟨clientId, code, codeVerifier, reply, hexchanges, hbrowser⟩ :=
    ((oauthMachine ι).wp_solo wp_doAuthorizationCode hrun).resolve_left hposted
  exact ⟨clientId, code, codeVerifier, reply, hexchanges, hbrowser,
    pkceConsistent_authorizationRequest hsha⟩

/-! ### A sample grant -/

/-- The words of a request line. -/
theorem codeOfRequestLine_eq (line : String) :
    codeOfRequestLine line =
      match ((line.toList.splitOnP charIsWhitespace).map String.ofList).filter (· ≠ "") with
      | _ :: path :: _ => codeOfUrl path
      | _ => none := by
  have hwords : ((line.split charIsWhitespace).toList.filter (fun w => !w.isEmpty)).map
      String.Slice.copy =
        ((line.toList.splitOnP charIsWhitespace).map String.ofList).filter (· ≠ "") := by
    rw [← String.toList_split_bool, List.filter_map]
    refine congrArg _ (List.filter_congr fun w _ => ?_)
    simp
  rw [codeOfRequestLine, ← hwords]
  generalize (line.split charIsWhitespace).toList.filter (fun w => !w.isEmpty) = words
  rcases words with _ | ⟨_, _ | ⟨_, _⟩⟩ <;> rfl

/-- The code of a callback. -/
theorem codeOfRequestLine_callback : codeOfRequestLine "GET ?code=c" = some "c" := by
  have hquery : "?code=c".splitOn "?" = ["", "code=c"] := by
    rw [String.splitOn, if_neg (by decide)]
    repeat (rw [String.splitOnAux]; simp +decide only [if_true, if_false])
  have hparams : "code=c".splitOn "&" = ["code=c"] := by
    rw [String.splitOn, if_neg (by decide)]
    repeat (rw [String.splitOnAux]; simp +decide only [if_true, if_false])
  have hparam : "code=c".splitOn "=" = ["code", "c"] := by
    rw [String.splitOn, if_neg (by decide)]
    repeat (rw [String.splitOnAux]; simp +decide only [if_true, if_false])
  have hwords : (("GET ?code=c".toList.splitOnP charIsWhitespace).map String.ofList).filter
      (· ≠ "") = ["GET", "?code=c"] := by
    decide
  rw [codeOfRequestLine_eq, hwords]
  simp only [codeOfUrl, hquery, hparams, hparam, List.findSome?_cons, if_true]
  decide

/-- A manager whose transform is never the identity. -/
def hashing : Manager := { interactive with s256 := fun verifier => verifier ++ "#" }

theorem hashing_ne (verifier : String) : hashing.s256 verifier ≠ verifier := by
  intro h
  have hlength := congrArg String.length h
  simp [hashing] at hlength

/-- What the server advertises. -/
def advertising (methods : List String) : OAuthWorld Unit where
  refreshHolder := none
  cache := none
  discovered := some ⟨some "https://idp.test/authorize", "https://idp.test/token", none, none,
    some methods⟩
  instant := 0
  store _ := none
  exchanges := []
  browser := []

/-- The browser calls back, and the token request fails. -/
def calledBack : List OAuthChoice :=
  [{}, {}, { text := "v" }, {}, {}, { text := "GET ?code=c" }, {}, {}]

/-- The form that is sent. -/
def sentForm : TokenForm :=
  .authorizationCode "client" "c" "http://localhost:9798/callback" "v"

/-- What the grant leaves. -/
def granted (methods : List String) : OAuthWorld Unit :=
  { advertising methods with
    exchanges := [(sentForm, .failed "")]
    browser := [(hashing.authorizationRequest (advertising methods).discovered
      "https://idp.test/token" "client" "v").url] }

theorem run_calledBack {methods : List String} (hmethods : methods = ["S256"] ∨ methods = ["plain"]) :
    ∃ x, (oauthMachine Unit).solo () (hashing.doAuthorizationCode "https://idp.test/token" "b")
      calledBack (advertising methods) = some (x, granted methods) := by
  have hcode : ∀ url s, (oauthMachine Unit).solo () (hashing.obtainCode url)
      [{}, { text := "GET ?code=c" }, {}] s =
        some (.done (.ok "c"), { s with browser := url :: s.browser }) := by
    intro url s
    simp only [Manager.obtainCode, Prog.bind_eq, Prog.perform_bind, Machine.solo_op_cons,
      oauthMachine, OAuthWorld.exec, OAuthWorld.input, Option.bind_some, if_true,
      codeOfRequestLine_callback]
    rfl
  have hid : hashing.authorizationClientId = .ret (.ok "client") := rfl
  have hscopes : hashing.config.scopes = none := rfl
  simp only [Manager.doAuthorizationCode, Prog.bind_eq, Prog.perform_bind, hid, hscopes,
    Prog.ret_bind, calledBack, Machine.solo_op_cons]
  have hread : ∀ e, (oauthMachine Unit).exec () _ .readDiscovered e (advertising methods) =
      some ((advertising methods).discovered, advertising methods) := fun _ => rfl
  have hverifier : ∀ e : OAuthChoice, (oauthMachine Unit).exec () _ .randomVerifier e
      (advertising methods) = some (e.text, advertising methods) := fun _ => rfl
  simp only [hread, hverifier, Option.bind_some]
  have hchoices : ([{}, { text := "GET ?code=c" }, {}, {}] : List OAuthChoice) =
      ([{}, { text := "GET ?code=c" }, {}] : List OAuthChoice) ++ ([{}] : List OAuthChoice) := rfl
  rw [hchoices, Machine.solo_bind _ (hcode _ _)]
  rcases hmethods with rfl | rfl
  · exact ⟨_, rfl⟩
  · exact ⟨_, rfl⟩

/-- Where S256 is advertised, the requests are consistent. -/
theorem pkce_consistent_s256 : PkceConsistent hashing
    (hashing.authorizationRequest (advertising ["S256"]).discovered "https://idp.test/token"
      "client" "v") "v" := by
  obtain ⟨x, hrun⟩ := run_calledBack (.inl rfl)
  obtain ⟨clientId, code, codeVerifier, reply, hexchanges, -, hiff⟩ :=
    pkce_consistent_iff hashing_ne hrun (List.cons_ne_nil _ _)
  cases (List.cons.inj hexchanges).1
  exact hiff.mpr List.mem_cons_self

/-- Where only the plain method is advertised, the challenge is the verifier itself, under the name
of S256. -/
theorem pkce_plain_is_inconsistent :
    ∃ x, (oauthMachine Unit).solo () (hashing.doAuthorizationCode "https://idp.test/token" "b")
        calledBack (advertising ["plain"]) = some (x, granted ["plain"]) ∧
      (granted ["plain"]).exchanges = [(sentForm, .failed "")] ∧
      (granted ["plain"]).browser = ["https://idp.test/authorize?response_type=code" ++
        "&client_id=client&redirect_uri=http://localhost:9798/callback&code_challenge=v" ++
        "&code_challenge_method=S256"] ∧
      ¬ PkceConsistent hashing (hashing.authorizationRequest (advertising ["plain"]).discovered
        "https://idp.test/token" "client" "v") "v" := by
  obtain ⟨x, hrun⟩ := run_calledBack (.inr rfl)
  refine ⟨x, hrun, rfl, by decide +kernel, fun h => ?_⟩
  rw [pkceConsistent_authorizationRequest hashing_ne] at h
  exact absurd h (by decide)

end HeadlessMcp
