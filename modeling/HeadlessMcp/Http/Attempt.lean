import HeadlessMcp.Async.Transcript
import HeadlessMcp.Http.Remedy

/-!
# One attempt at a request

An attempt posts its request once, or twice when a 401 made it obtain a token
(`attempted_sendRequestInner`). The reply to the second request is read by code of its own, which
takes every failure for one of the authorization and never thinks the session lost: the two agree
exactly on the successful replies that do not say that the session is gone
(`retry_reads_alike_iff`).
-/

namespace HeadlessMcp

open Async Machine

/-! ## What is posted -/

/-- The request that an operation sent, with its reply. -/
def postOf : Turn HttpOp → Option (HttpRequest × HttpReply)
  | ⟨.post request, reply⟩ => some (request, reply)
  | _ => none

/-- The requests that a transcript sends, with their replies. -/
def posts (l : List (Turn HttpOp)) : List (HttpRequest × HttpReply) := l.filterMap postOf

@[simp] theorem posts_nil : posts [] = [] := rfl

@[simp] theorem posts_append (l l' : List (Turn HttpOp)) :
    posts (l ++ l') = posts l ++ posts l' := List.filterMap_append

@[simp] theorem posts_post (request : HttpRequest) (reply : HttpReply)
    (l : List (Turn HttpOp)) :
    posts (⟨.post request, reply⟩ :: l) = (request, reply) :: posts l := rfl

/-- An operation that sends nothing. -/
def HttpOp.Mute {β : Type} : HttpOp β → Prop
  | .post _ => False
  | _ => True

/-- A program that sends nothing has no posts. -/
theorem posts_eq_nil {α : Type} {p : Prog HttpOp α} {l : List (Turn HttpOp)} {x : Outcome α}
    (hp : p.Uses HttpOp.Mute) (h : p.Performs l x) : posts l = [] := by
  refine List.filterMap_eq_nil_iff.mpr fun a ha => ?_
  have hmute := h.uses hp a ha
  obtain ⟨o, answer⟩ := a
  cases o <;> first | rfl | exact absurd hmute id

namespace HttpBackend

variable (b : HttpBackend)

/-! ## Reading a reply -/

/-- What `post_json` makes of a reply. -/
def replyOf : HttpReply → BackendResult (String × Nat × Entries String)
  | .failed timeout e => .error ⟨if timeout then .timeout else .connection,
      s!"HTTP request to '{b.id}' failed: {e}"⟩
  | .response _ _ (.error e) => .error (protocolError s!"failed to read response from '{b.id}': {e}")
  | .response status headers (.ok body) => .ok (body, status, headers)

/-- How the reply to the first request of an attempt is read. -/
def readFirst (sentSession : Option String) (reply : HttpReply) : Except Failure Value :=
  match b.replyOf reply with
  | .error e => .error (.ofError e)
  | .ok (body, status, _) => b.finish body status sentSession

/-- How the reply to its second one is read, the one with a new token. -/
def readRetry (reply : HttpReply) : Except Failure Value :=
  match b.replyOf reply with
  | .error e => .error (.ofError e)
  | .ok (body, status, _) =>
    if isSuccess status then
      match b.parseResponse body with
      | .ok v => .ok v
      | .error e => .error (.ofError e)
    else .error (.ofError ⟨.auth, s!"HTTP {status} after OAuth2: {body}"⟩)

/-- A 401, and after it the token manager has provided a token. -/
structure TokenObtained (reply : HttpReply) (l : List (Turn HttpOp)) : Prop where
  unauthorized : ∃ headers body, reply = .response 401 headers body
  token : ∃ manager token asked, b.manager = some manager ∧ asked <:+: l ∧
    (oauthDo (manager.getToken b.id b.daemonMode)).Performs asked (.done (.ok token))

/-- What one attempt has done: one request with its reply, or two with a token in between. -/
inductive Attempted (message : JsonRpcMessage) (l : List (Turn HttpOp))
    (x : Outcome (Except Failure Value)) : Prop where
  | once {request : HttpRequest} {reply : HttpReply} {before after : List (Turn HttpOp)}
      (performed : l = before ++ ⟨.post request, reply⟩ :: after)
      (quiet : posts before = [] ∧ posts after = [])
      (own : request.message = message)
      (outcome : x = .panicked ∨ x = .done (b.readFirst request.sessionId reply)) : Attempted message l x
  | twice {request request' : HttpRequest} {reply reply' : HttpReply}
      {before between after : List (Turn HttpOp)}
      (performed : l = before ++ ⟨.post request, reply⟩ :: (between ++ ⟨.post request', reply'⟩ :: after))
      (quiet : posts before = [] ∧ posts between = [] ∧ posts after = [])
      (own : request.message = message ∧ request'.message = message)
      (token : b.TokenObtained reply between)
      (outcome : x = .panicked ∨ x = .done (b.readRetry reply')) : Attempted message l x

/-! ## The transcript of an attempt -/

section Attempts

variable {b} {message : JsonRpcMessage} {extraHeaders : Entries String}
  {sentSession : Option String} {retry : Bool} {method : String} {params : Option Value}
  {l : List (Turn HttpOp)}

theorem mute_oauthDo {α : Type} (p : Prog OAuthOp α) : (oauthDo p).Uses HttpOp.Mute :=
  Prog.uses_lift (fun _ => trivial) _

theorem mute_captureSession (headers : Entries String) :
    (captureSession headers).Uses HttpOp.Mute := by
  unfold captureSession
  split
  · exact ⟨trivial, fun _ => trivial⟩
  · trivial

theorem mute_discoverOn (status : Nat) (headers : Entries String) :
    (b.discoverOn status headers).Uses HttpOp.Mute := by
  unfold discoverOn
  split
  · split
    · exact (mute_oauthDo _).bind fun _ => trivial
    · trivial
  · trivial

theorem mute_annotations : (annotations method params).Uses HttpOp.Mute := by
  unfold annotations
  split
  · exact ⟨trivial, fun _ => trivial⟩
  · trivial

theorem mute_extraHeaders : (HttpBackend.extraHeaders method params).Uses HttpOp.Mute := by
  refine mute_annotations.bind fun known => ?_
  split <;> trivial

/-- Only a modern request can have too many headers. -/
theorem modern_of_panicked (h : (HttpBackend.extraHeaders method params).Performs l .panicked) :
    (modernVersion params).isSome := by
  by_contra hlegacy
  rw [Option.not_isSome_iff_eq_none] at hlegacy
  have hannotations : annotations method params = .ret [] := by
    simp [annotations, hlegacy]
  have hheaders : modernHeaders [] method params = some [] := by
    cases params <;> simp [modernHeaders, hlegacy]
  simp only [HttpBackend.extraHeaders, Prog.bind_eq, hannotations, Prog.ret_bind, hheaders] at h
  cases h.2

theorem replyOf_eq_ok {reply : HttpReply} {status : Nat} {headers : Entries String} {body : String}
    (h : b.replyOf reply = .ok (body, status, headers)) :
    reply = .response status headers (.ok body) := by
  rcases reply with ⟨timeout, e⟩ | ⟨status, headers, e | body⟩ <;> cases h
  rfl

/-- A POST with what surrounds it. -/
theorem performs_postJson {x : Outcome (BackendResult (String × Nat × Entries String))}
    (h : (b.postJson message extraHeaders sentSession).Performs l x) :
    ∃ bearer reply after, l = [⟨.loadClient, bearer⟩] ++
        ⟨.post ⟨message, bearer, extraHeaders, sentSession⟩, reply⟩ :: after ∧
      posts after = [] ∧ (x = .panicked ∨ x = .done (b.replyOf reply)) := by
  simp only [postJson, Prog.bind_eq, Prog.perform_bind] at h
  obtain ⟨bearer, _, rfl, reply, after, rfl, h⟩ := h
  refine ⟨bearer, reply, after, rfl, ?_⟩
  -- no reply; or one, whose protected resource is looked up without a post
  rcases reply with ⟨timeout, e⟩ | ⟨status, headers, body⟩
  · obtain ⟨rfl, rfl⟩ := h
    exact ⟨rfl, .inr rfl⟩
  · have hmute := mute_discoverOn (b := b) status headers
    rcases h.of_bind with ⟨first, _, rest, rfl, hfirst, hrest⟩ | ⟨rfl, hpanic⟩
    · have hquiet := posts_eq_nil hmute hfirst
      rcases body with e | body
      · obtain ⟨rfl, rfl⟩ := hrest
        exact ⟨by simp [hquiet], .inr rfl⟩
      · obtain ⟨rfl, rfl⟩ := hrest
        exact ⟨by simp [hquiet], .inr rfl⟩
    · exact ⟨posts_eq_nil hmute hpanic, .inl rfl⟩

theorem performs_retryWith {token : String} {x : Outcome (Except Failure Value)}
    (h : (b.retryWith message extraHeaders sentSession token).Performs l x) :
    ∃ request reply before after, l = before ++ ⟨.post request, reply⟩ :: after ∧
      posts before = [] ∧ posts after = [] ∧ request.message = message ∧
      (x = .panicked ∨ x = .done (b.readRetry reply)) := by
  simp only [retryWith, Prog.bind_eq, Prog.perform_bind] at h
  obtain ⟨_, l, rfl, h⟩ := h
  -- the post has been made, or the attempt has panicked before
  rcases h.of_bind with ⟨first, posted, rest, rfl, hfirst, hrest⟩ | ⟨rfl, hpanic⟩
  · obtain ⟨bearer, reply, after, rfl, hafter, hposted⟩ := performs_postJson hfirst
    obtain rfl := Outcome.done.inj (hposted.resolve_left fun h => by cases h)
    refine ⟨⟨message, bearer, extraHeaders, sentSession⟩, reply,
      ⟨.storeClient (clientToken (some token)), ()⟩ :: [⟨.loadClient, bearer⟩], after ++ rest, ?_,
      rfl, ?_⟩
    · simp
    · rw [posts_append, hafter, readRetry]
      -- the reply is lost, or its session captured and its body read
      rcases hreply : b.replyOf reply with e | ⟨body, status, headers⟩
      · rw [hreply] at hrest
        obtain ⟨rfl, rfl⟩ := hrest
        exact ⟨rfl, rfl, .inr rfl⟩
      · rw [hreply] at hrest
        have hmute := mute_captureSession headers
        rcases Prog.Performs.of_bind hrest with
          ⟨captured, _, rest, rfl, hcaptured, hrest⟩ | ⟨rfl, hpanic⟩
        · have hquiet := posts_eq_nil hmute hcaptured
          dsimp only at hrest ⊢
          split at hrest
          · rename_i hsuccess
            rw [if_pos hsuccess]
            cases hparsed : b.parseResponse body <;>
            · rw [hparsed] at hrest
              obtain ⟨rfl, rfl⟩ := hrest
              exact ⟨by simp [hquiet], rfl, .inr rfl⟩
          · rename_i hfailure
            rw [if_neg hfailure]
            obtain ⟨rfl, rfl⟩ := hrest
            exact ⟨by simp [hquiet], rfl, .inr rfl⟩
        · exact ⟨by simp [posts_eq_nil hmute hpanic], rfl, .inl rfl⟩
  · obtain ⟨bearer, reply, after, rfl, hafter, -⟩ := performs_postJson hpanic
    exact ⟨_, reply, ⟨.storeClient (clientToken (some token)), ()⟩ :: [⟨.loadClient, bearer⟩],
      after, rfl, rfl, hafter, rfl, .inl rfl⟩

/-- What follows the first reply of an exchange. -/
def settle (b : HttpBackend) (message : JsonRpcMessage) (extraHeaders : Entries String)
    (sentSession : Option String) (retry : Bool) (body : String) (status : Nat) :
    Prog HttpOp (Except Failure Value) :=
  match b.manager with
  | none => .ret (b.finish body status sentSession)
  | some manager =>
    if status = 401 ∧ retry then do
      match ← oauthDo (manager.getToken b.id b.daemonMode) with
      | .ok token => b.retryWith message extraHeaders sentSession token
      | .error _ => .ret (b.finish body status sentSession)
    else .ret (b.finish body status sentSession)

/-- Nothing more is posted, or a token is obtained and one request posted. -/
theorem performs_settle {body : String} {status : Nat} {x : Outcome (Except Failure Value)}
    (h : (b.settle message extraHeaders sentSession retry body status).Performs l x) :
    (posts l = [] ∧ (x = .panicked ∨ x = .done (b.finish body status sentSession))) ∨
      status = 401 ∧ ∃ manager token asked request reply before after, b.manager = some manager ∧
        l = asked ++ (before ++ ⟨.post request, reply⟩ :: after) ∧
        (oauthDo (manager.getToken b.id b.daemonMode)).Performs asked (.done (.ok token)) ∧
        posts asked = [] ∧ posts before = [] ∧ posts after = [] ∧ request.message = message ∧
        (x = .panicked ∨ x = .done (b.readRetry reply)) := by
  rw [settle] at h
  -- no manager, a status other than 401, or a token to ask for
  split at h
  · obtain ⟨rfl, rfl⟩ := h
    exact .inl ⟨rfl, .inr rfl⟩
  · rename_i manager hmanager
    split at h
    · rename_i hunauthorized
      have hmute := mute_oauthDo (manager.getToken b.id b.daemonMode)
      rcases h.of_bind with ⟨asked, result, rest, rfl, hasked, hrest⟩ | ⟨rfl, hpanic⟩
      · have hquiet := posts_eq_nil hmute hasked
        -- no token, so the reply is what it was; or a second post
        cases result with
        | error e =>
          obtain ⟨rfl, rfl⟩ := hrest
          exact .inl ⟨by rw [List.append_nil, hquiet], .inr rfl⟩
        | ok token =>
          obtain ⟨request, reply, before, after, rfl, hbefore, hafter, hown, hx⟩ :=
            performs_retryWith hrest
          exact .inr ⟨hunauthorized.1, manager, token, asked, request, reply, before, after,
            hmanager, rfl, hasked, hquiet, hbefore, hafter, hown, hx⟩
      · exact .inl ⟨posts_eq_nil hmute hpanic, .inl rfl⟩
    · obtain ⟨rfl, rfl⟩ := h
      exact .inl ⟨rfl, .inr rfl⟩

/-- What an exchange does, after anything that sends nothing. -/
theorem attempted_exchange {x : Outcome (Except Failure Value)} {start : List (Turn HttpOp)}
    (hstart : posts start = [])
    (h : (b.exchange message extraHeaders sentSession retry).Performs l x) :
    b.Attempted message (start ++ l) x := by
  rcases h.of_bind with ⟨first, posted, rest, rfl, hfirst, hrest⟩ | ⟨rfl, hpanic⟩
  · obtain ⟨bearer, reply, after, rfl, hafter, hposted⟩ := performs_postJson hfirst
    obtain rfl := Outcome.done.inj (hposted.resolve_left nofun)
    have hbefore : posts (start ++ [⟨.loadClient, bearer⟩]) = [] := by
      rw [posts_append, hstart]
      rfl
    -- one request, and then nothing that is posted
    have once {rest : List (Turn HttpOp)} {x : Outcome (Except Failure Value)}
        (hquiet : posts rest = [])
        (hx : x = .panicked ∨ x = .done (b.readFirst sentSession reply)) :
        b.Attempted message (start ++ ([⟨.loadClient, bearer⟩] ++
          ⟨.post ⟨message, bearer, extraHeaders, sentSession⟩, reply⟩ :: after ++ rest)) x := by
      have hsplit : start ++ ([⟨.loadClient, bearer⟩] ++
          ⟨.post ⟨message, bearer, extraHeaders, sentSession⟩, reply⟩ :: after ++ rest) =
          (start ++ [⟨.loadClient, bearer⟩]) ++
            ⟨.post ⟨message, bearer, extraHeaders, sentSession⟩, reply⟩ :: (after ++ rest) := by
        simp
      refine .once hsplit ⟨hbefore, ?_⟩ rfl hx
      rw [posts_append, hafter, hquiet]
      rfl
    rcases hreply : b.replyOf reply with e | ⟨body, status, headers⟩
    · rw [hreply] at hrest
      obtain ⟨rfl, rfl⟩ := hrest
      exact once rfl (.inr (by rw [readFirst, hreply]))
    · have hfinish : b.readFirst sentSession reply = b.finish body status sentSession := by
        rw [readFirst, hreply]
      rw [hreply] at hrest
      rw [hfinish] at once
      rcases Prog.Performs.of_bind hrest with
        ⟨captured, _, rest, rfl, hcaptured, hrest⟩ | ⟨rfl, hpanic⟩
      · have hcaptured := posts_eq_nil (mute_captureSession headers) hcaptured
        rcases performs_settle hrest with ⟨hquiet, hx⟩ | ⟨rfl, manager, token, asked, request', reply',
          before, after', hmanager, rfl, hasked, hquiet, hbefore', hafter', hown, hx⟩
        · exact once (by rw [posts_append, hcaptured, hquiet]; rfl) hx
        · have hobtained : b.TokenObtained reply (after ++ captured ++ asked ++ before) :=
            ⟨⟨headers, .ok body, replyOf_eq_ok hreply⟩, manager, token, asked, hmanager,
              ⟨after ++ captured, before, rfl⟩, hasked⟩
          have hsplit : start ++ ([⟨.loadClient, bearer⟩] ++
              ⟨.post ⟨message, bearer, extraHeaders, sentSession⟩, reply⟩ :: after ++
                (captured ++ (asked ++ (before ++ ⟨.post request', reply'⟩ :: after')))) =
              (start ++ [⟨.loadClient, bearer⟩]) ++
                ⟨.post ⟨message, bearer, extraHeaders, sentSession⟩, reply⟩ ::
                  ((after ++ captured ++ asked ++ before) ++ ⟨.post request', reply'⟩ :: after') := by
            simp
          refine .twice hsplit ⟨hbefore, ?_, hafter'⟩ ⟨rfl, hown⟩ hobtained hx
          rw [posts_append, posts_append, posts_append, hafter, hcaptured, hquiet, hbefore']
          rfl
      · exact once (posts_eq_nil (mute_captureSession headers) hpanic) (.inl rfl)
  · obtain ⟨bearer, reply, after, rfl, hafter, -⟩ := performs_postJson hpanic
    refine .once (List.append_assoc start _ _).symm ⟨?_, hafter⟩ rfl (.inl rfl)
    rw [posts_append, hstart]
    rfl

/-- What one attempt does, unless it is a modern one that panics over its headers: that one sends
nothing. -/
theorem attempted_sendRequestInner {x : Outcome (Except Failure Value)}
    (h : (b.sendRequestInner method params retry).Performs l x) :
    (∃ id, b.Attempted (.request id method params) l x) ∨
      ((modernVersion params).isSome ∧ posts l = [] ∧ x = .panicked) := by
  simp only [sendRequestInner, Prog.bind_eq, Prog.perform_bind] at h
  obtain ⟨id, l, rfl, h⟩ := h
  -- the headers are there, or they do not fit
  rcases h.of_bind with ⟨first, headers, rest, rfl, hfirst, hrest⟩ | ⟨rfl, hpanic⟩
  · obtain ⟨sentSession, rest, rfl, hrest⟩ := hrest
    refine .inl ⟨.number (asI64 id), ?_⟩
    have hstart : posts (⟨.nextId, id⟩ :: (first ++ [⟨.loadSession, sentSession⟩])) = [] := by
      change posts (first ++ [⟨.loadSession, sentSession⟩]) = []
      rw [posts_append, posts_eq_nil mute_extraHeaders hfirst]
      rfl
    have hattempted := attempted_exchange hstart hrest
    rwa [List.cons_append, List.append_assoc, List.singleton_append] at hattempted
  · have hquiet : posts l = [] := posts_eq_nil mute_extraHeaders hpanic
    exact .inr ⟨modern_of_panicked hpanic, hquiet, rfl⟩

/-- What one attempt does that returns. -/
theorem attempted_of_done {outcome : Except Failure Value}
    (h : (b.sendRequestInner method params retry).Performs l (.done outcome)) :
    ∃ id, b.Attempted (.request id method params) l (.done outcome) :=
  (attempted_sendRequestInner h).resolve_right fun hpanic => (by cases hpanic.2.2)

end Attempts

end HttpBackend

/-! ## The reply to the second request -/

/-- Two outcomes of an attempt agree: the same value, or an error of the same kind and the same
verdict on the session. -/
def SameVerdict : Except Failure Value → Except Failure Value → Prop
  | .ok v, .ok v' => v = v'
  | .error failure, .error failure' =>
    failure.error.kind = failure'.error.kind ∧ failure.sessionLost = failure'.sessionLost
  | _, _ => False

/-- A reply is a success that does not say that the session is gone, or its body is lost. -/
def KeepsSession (serde : Serde) (status : Nat) (body : Except String String) : Prop :=
  ∀ text, body = .ok text → isSuccess status = true ∧ sessionNotInitialized serde text = none

section Readings

variable {b : HttpBackend} {sentSession : Option String} {status : Nat} {headers : Entries String}
  {body : Except String String}

/-- A result is no lost session. -/
theorem sessionNotInitialized_of_ok {text : String} {v : Value} (h : b.parseResponse text = .ok v) :
    sessionNotInitialized b.serde text = none := by
  rw [HttpBackend.parseResponse] at h
  rw [sessionNotInitialized]
  -- nothing in the body to decode, so nothing that says so
  cases hpayload : jsonPayload text with
  | none => rfl
  | some json =>
    rw [hpayload] at h
    dsimp only at h
    rw [Option.map_some]
    cases hdecoded : decodeMessage b.serde json with
    | error e => rfl
    | ok m =>
      rw [hdecoded] at h
      cases m with
      | error id err => cases h
      | _ => rfl

/-- When the two readings of a reply agree. -/
theorem readings_agree_iff :
    SameVerdict (b.readFirst sentSession (.response status headers body))
        (b.readRetry (.response status headers body)) ↔ KeepsSession b.serde status body := by
  cases body with
  | error e => exact iff_of_true ⟨rfl, rfl⟩ nofun
  | ok text =>
    have hkeeps : KeepsSession b.serde status (.ok text) ↔
        isSuccess status = true ∧ sessionNotInitialized b.serde text = none :=
      ⟨fun h => h text rfl, fun h text' htext => by cases htext; exact h⟩
    rw [hkeeps]
    dsimp only [HttpBackend.readFirst, HttpBackend.readRetry, HttpBackend.replyOf]
    rw [HttpBackend.finish]
    -- a failed status is no session error on the second reading, whatever the body says
    by_cases hsuccess : isSuccess status = true
    · rw [if_pos hsuccess, if_pos hsuccess, and_iff_right hsuccess]
      cases hparsed : b.parseResponse text with
      | ok v => exact iff_of_true rfl (sessionNotInitialized_of_ok hparsed)
      | error e => exact and_iff_right rfl
    · rw [if_neg hsuccess, if_neg hsuccess]
      refine iff_of_false ?_ fun h => hsuccess h.1
      rintro ⟨hkind, -⟩
      revert hkind
      dsimp only
      split <;> nofun

end Readings

/-- **When a reply is read alike after a token.** The outcome of an attempt whose only request is
answered by a reply, and that of one whose second request is, agree if and only if the reply is a
success that does not say that the session is gone, or its body is lost. -/
theorem retry_reads_alike_iff {b : HttpBackend} {method : String} {params : Option Value}
    {retry retry' : Bool} {l l' : List (Turn HttpOp)} {outcome outcome' : Except Failure Value}
    {request first request' : HttpRequest} {reply : HttpReply} {status : Nat}
    {headers : Entries String} {body : Except String String}
    (hplain : (b.sendRequestInner method params retry).Performs l (.done outcome))
    (hposts : posts l = [(request, .response status headers body)])
    (hretried : (b.sendRequestInner method params retry').Performs l' (.done outcome'))
    (hposts' : posts l' = [(first, reply), (request', .response status headers body)]) :
    SameVerdict outcome outcome' ↔ KeepsSession b.serde status body := by
  -- the first attempt posts once, so its only reply is read as a first one
  have hread : outcome = b.readFirst request.sessionId (.response status headers body) := by
    obtain ⟨id, hattempted⟩ := HttpBackend.attempted_of_done hplain
    cases hattempted with
    | once performed quiet own read =>
      rw [performed, posts_append, posts_post, quiet.1, quiet.2] at hposts
      cases hposts
      exact Outcome.done.inj (read.resolve_left nofun)
    | twice performed quiet own token read =>
      rw [performed, posts_append, posts_post, posts_append, posts_post, quiet.1, quiet.2.1,
        quiet.2.2] at hposts
      cases hposts
  -- the second posts twice, and its second reply is read as that of a retry
  have hread' : outcome' = b.readRetry (.response status headers body) := by
    obtain ⟨id, hattempted⟩ := HttpBackend.attempted_of_done hretried
    cases hattempted with
    | once performed quiet own read =>
      rw [performed, posts_append, posts_post, quiet.1, quiet.2] at hposts'
      cases hposts'
    | twice performed quiet own token read =>
      rw [performed, posts_append, posts_post, posts_append, posts_post, quiet.1, quiet.2.1,
        quiet.2.2] at hposts'
      cases hposts'
      exact Outcome.done.inj (read.resolve_left nofun)
  rw [hread, hread']
  exact readings_agree_iff

/-! ### A backend behind a proxy -/

/-- One attempt at a listing, as the only task. -/
def listingAttempt (_ : Unit) : Prog HttpOp (Except Failure Value) :=
  guardedHttp.sendRequestInner "tools/list" none true

/-- It is answered at once. -/
def answeredWith (reply : HttpReply) : List (Unit × HttpChoice) :=
  turns () [{}, {}, {}, { reply := reply }]

/-- It is refused, and answered once there is a token. -/
def refusedThen (reply : HttpReply) : List (Unit × HttpChoice) :=
  turns () [{}, {}, {}, { reply := .response 401 [] (.ok "") }, {}, {}, {}, {}, { reply := reply }]

set_option maxRecDepth 4000 in
/-- A result is read alike. -/
theorem result_reads_alike :
    ∃ l l' outcome outcome',
      (listingAttempt ()).Performs l (.done outcome) ∧
      (posts l).map Prod.snd = [.response 200 [] (.ok sampleBody)] ∧
      (listingAttempt ()).Performs l' (.done outcome') ∧
      (posts l').map Prod.snd = [.response 401 [] (.ok ""), .response 200 [] (.ok sampleBody)] ∧
      SameVerdict outcome outcome' := by
  obtain ⟨c, outcome, request, hc, hend, hposts⟩ : ∃ c outcome request,
      (httpMachine Unit).recorded.play (answeredWith (.response 200 [] (.ok sampleBody)))
        ⟨⟨guardedStart "t2", []⟩, listingAttempt⟩ = some c ∧ c.task () = .ret outcome ∧
      posts (transcript () c.shared.log) = [(request, .response 200 [] (.ok sampleBody))] :=
    ⟨_, _, _, rfl, rfl, rfl⟩
  obtain ⟨c', outcome', first, request', hc', hend', hposts'⟩ : ∃ c' outcome' first request',
      (httpMachine Unit).recorded.play (refusedThen (.response 200 [] (.ok sampleBody)))
        ⟨⟨guardedStart "t2", []⟩, listingAttempt⟩ = some c' ∧ c'.task () = .ret outcome' ∧
      posts (transcript () c'.shared.log) = [(first, .response 401 [] (.ok "")),
        (request', .response 200 [] (.ok sampleBody))] := ⟨_, _, _, _, rfl, rfl, rfl⟩
  have hplain := performs_of_play hc hend
  have hretried := performs_of_play hc' hend'
  refine ⟨_, _, outcome, outcome', hplain, by rw [hposts]; rfl, hretried, by rw [hposts']; rfl,
    (retry_reads_alike_iff hplain hposts hretried hposts').mpr ?_⟩
  rintro _ ⟨⟩
  exact ⟨rfl, by decide +kernel⟩

/-- A backend that is down behind its proxy is taken for one that refuses the new token. -/
theorem outage_reads_otherwise :
    ∃ l l' failure failure',
      (listingAttempt ()).Performs l (.done (.error failure)) ∧
      (posts l).map Prod.snd = [.response 503 [] (.ok "")] ∧
      (listingAttempt ()).Performs l' (.done (.error failure')) ∧
      (posts l').map Prod.snd = [.response 401 [] (.ok ""), .response 503 [] (.ok "")] ∧
      failure.error.kind = .connection ∧ failure'.error.kind = .auth ∧
      ¬ SameVerdict (.error failure) (.error failure') := by
  obtain ⟨c, hc, hend, hposts⟩ : ∃ c,
      (httpMachine Unit).recorded.play (answeredWith (.response 503 [] (.ok "")))
        ⟨⟨guardedStart "t2", []⟩, listingAttempt⟩ = some c ∧
      c.task () = .ret (.error ⟨⟨.connection, "HTTP 503 from 'api': "⟩, none⟩) ∧
      (posts (transcript () c.shared.log)).map Prod.snd = [.response 503 [] (.ok "")] :=
    ⟨_, rfl, rfl, rfl⟩
  obtain ⟨c', hc', hend', hposts'⟩ : ∃ c',
      (httpMachine Unit).recorded.play (refusedThen (.response 503 [] (.ok "")))
        ⟨⟨guardedStart "t2", []⟩, listingAttempt⟩ = some c' ∧
      c'.task () = .ret (.error ⟨⟨.auth, "HTTP 503 after OAuth2: "⟩, none⟩) ∧
      (posts (transcript () c'.shared.log)).map Prod.snd =
        [.response 401 [] (.ok ""), .response 503 [] (.ok "")] := ⟨_, rfl, rfl, rfl⟩
  exact ⟨_, _, _, _, performs_of_play hc hend, hposts, performs_of_play hc' hend', hposts', rfl, rfl,
    fun h => nomatch h.1⟩

end HeadlessMcp
