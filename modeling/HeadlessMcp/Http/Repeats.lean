import HeadlessMcp.Http.Attempt
import HeadlessMcp.Http.Reinitialize

/-!
# How often a request is sent

`send_request` may send its request again after a 401, when there is a token, and after a reply
that says that the session is gone, when the handshake has been redone. Both can happen in one
call, but an attempt that has already obtained a token never thinks the session lost. So a call
posts its request at most three times, and at most twice where there is no session to lose, and
never again once it has been answered with a result (`sendRequest_sends`).
-/

namespace HeadlessMcp

open Async Machine

/-! ## The requests of a call -/

/-- A request with this method. -/
def HttpRequest.calls (method : String) (request : HttpRequest) : Bool :=
  match request.message with
  | .request _ method' _ => method' = method
  | _ => false

/-- A request that a call has sent, its reply, and what the call did before the next one. -/
structure Sending : Type 1 where
  request : HttpRequest
  reply : HttpReply
  after : List (Turn HttpOp)

/-- A transcript cut at the requests with this method: what comes before the first of them, and
the requests. -/
def cut (method : String) : List (Turn HttpOp) → List (Turn HttpOp) × List Sending
  | [] => ([], [])
  | a :: l =>
    let (before, sendings) := cut method l
    match postOf a with
    | some (request, reply) =>
      if request.calls method then ([], ⟨request, reply, before⟩ :: sendings)
      else (a :: before, sendings)
    | none => (a :: before, sendings)

/-- The requests with this method. -/
def sendings (method : String) (l : List (Turn HttpOp)) : List Sending := (cut method l).2

/-- None of them is sent. -/
def Silent (method : String) (l : List (Turn HttpOp)) : Prop :=
  ∀ a ∈ l, ∀ request reply, postOf a = some (request, reply) → request.calls method = false

/-- An operation that sends no request with this method. -/
def HttpOp.Foreign (method : String) {β : Type} (o : HttpOp β) : Prop :=
  ∀ request, o.posted = some request → request.calls method = false

theorem HttpOp.Foreign.of_none {method : String} {β : Type} {o : HttpOp β}
    (h : o.posted = none) : o.Foreign method := fun request hrequest => by
  rw [h] at hrequest
  cases hrequest

theorem HttpOp.Attempt.foreign {method : String} {β : Type} {o : HttpOp β}
    (h : o.Attempt fun request => request.calls method = false) : o.Foreign method := by
  intro request hrequest
  cases o <;> cases hrequest
  exact h

section Cuts

variable {method : String} {l l' : List (Turn HttpOp)} {request : HttpRequest}
  {reply : HttpReply}

theorem silent_nil : Silent method [] := fun _ ha => absurd ha List.not_mem_nil

theorem silent_of_posts (h : posts l = []) : Silent method l := fun a ha _ _ hpost =>
  absurd hpost (by rw [List.filterMap_eq_nil_iff.mp h a ha]; nofun)

theorem Silent.append (h : Silent method l) (h' : Silent method l') : Silent method (l ++ l') :=
  fun a ha => (List.mem_append.mp ha).elim (h a) (h' a)

/-- What is silent belongs to what comes before the first request. -/
theorem cut_append (h : Silent method l) :
    cut method (l ++ l') = (l ++ (cut method l').1, (cut method l').2) := by
  induction l with
  | nil => rfl
  | cons a l ih =>
    have hrest := ih fun a' ha' => h a' (List.mem_cons_of_mem _ ha')
    have hhead := h a List.mem_cons_self
    rw [List.cons_append, cut, hrest]
    dsimp only
    split
    · rename_i request reply hpost
      rw [hhead request reply hpost]
      rfl
    · rfl

theorem cut_silent (h : Silent method l) : cut method l = (l, []) := by
  have hcut := @cut_append method l [] h
  rwa [List.append_nil, cut, List.append_nil] at hcut

/-- A request starts a cut. -/
theorem cut_post (h : request.calls method = true) :
    cut method (⟨.post request, reply⟩ :: l) =
      ([], ⟨request, reply, (cut method l).1⟩ :: (cut method l).2) := by
  rw [cut]
  dsimp only [postOf]
  rw [h]
  rfl

end Cuts

/-! ## What a call sends -/

namespace HttpBackend

variable (b : HttpBackend)

/-- A reply carries a result. -/
def Succeeded (reply : HttpReply) : Prop :=
  ∃ body status headers v, b.replyOf reply = .ok (body, status, headers) ∧
    isSuccess status = true ∧ b.parseResponse body = .ok v

/-- The reply said that the session is gone, and after it the handshake was redone. -/
structure Reopened (sending : Sending) : Prop where
  lost : ∃ failure, b.readFirst sending.request.sessionId sending.reply = .error failure ∧
    failure.sessionLost ≠ none
  redone : ∃ epoch redone, redone <:+: sending.after ∧
    (b.reinitialize epoch).Performs redone (.done (.ok ()))

/-- How a call sends its request and ends. -/
structure Sends (method : String) (params : Option Value) (sendings : List Sending)
    (x : Outcome (BackendResult Value)) : Prop where
  /-- it is the same request each time -/
  own : ∀ s ∈ sendings, ∃ id, s.request.message = .request id method params
  /-- it is not sent too often -/
  bounded : sendings.length ≤
    if method = "initialize" ∨ (modernVersion params).isSome then 2 else 3
  /-- it is sent again only for a reason -/
  repeated : ∀ s ∈ sendings.dropLast, b.TokenObtained s.reply s.after ∨ b.Reopened s
  /-- and never after a result -/
  unanswered : ∀ s ∈ sendings.dropLast, ¬ b.Succeeded s.reply
  /-- the outcome is that of the last one -/
  outcome : ∀ result, x = .done result → ∃ earlier last, sendings = earlier ++ [last] ∧
    ((∀ s ∈ earlier.getLast?, b.Reopened s) ∧
        result = giveUp (b.readFirst last.request.sessionId last.reply) ∨
      (∃ s ∈ earlier.getLast?, b.TokenObtained s.reply s.after) ∧
        result = giveUp (b.readRetry last.reply))

section Calls

variable {b} {method : String} {params : Option Value} {retry : Bool}
  {l : List (Turn HttpOp)} {x : Outcome (BackendResult Value)}

/-- A 401 carries no result. -/
theorem TokenObtained.unanswered {reply : HttpReply} (h : b.TokenObtained reply l) :
    ¬ b.Succeeded reply := by
  rintro ⟨text, status, headers, v, hreply, hsuccess, -⟩
  obtain ⟨headers', body, rfl⟩ := h.unauthorized
  cases replyOf_eq_ok hreply
  exact absurd hsuccess (by decide)

/-- A lost session is no result. -/
theorem Reopened.unanswered {s : Sending} (h : b.Reopened s) : ¬ b.Succeeded s.reply := by
  rintro ⟨text, status, headers, v, hreply, hsuccess, hparsed⟩
  obtain ⟨failure, hread, -⟩ := h.lost
  rw [readFirst, hreply] at hread
  dsimp only at hread
  rw [finish, if_pos hsuccess, hparsed] at hread
  cases hread

/-- After a new token, the session is never thought lost. -/
theorem sessionLost_readRetry {reply : HttpReply} {failure : Failure}
    (h : b.readRetry reply = .error failure) : failure.sessionLost = none := by
  rw [readRetry] at h
  split at h
  · cases h
    rfl
  · split at h
    · split at h
      · cases h
      · cases h
        rfl
    · cases h
      rfl

/-- A call that panics before it has sent anything. -/
theorem Sends.nothing (h : Silent method l) :
    b.Sends method params (sendings method l) .panicked := by
  rw [sendings, cut_silent h]
  exact ⟨List.forall_mem_nil _, Nat.zero_le _, List.forall_mem_nil _, List.forall_mem_nil _,
    fun _ hx => by cases hx⟩

/-- What a single attempt sends, between operations that send nothing of the kind. -/
theorem Attempted.sends {id : JsonRpcId} {start rest : List (Turn HttpOp)}
    {outcome : Outcome (Except Failure Value)} (hstart : Silent method start)
    (hrest : Silent method rest) (h : b.Attempted (.request id method params) l outcome)
    (hx : ∀ result, x = .done result → ∃ out, outcome = .done out ∧ result = giveUp out) :
    sendings method (start ++ (l ++ rest)) ≠ [] ∧
      (sendings method (start ++ (l ++ rest))).length ≤ 2 ∧
      b.Sends method params (sendings method (start ++ (l ++ rest))) x := by
  have hcalls {request : HttpRequest} (hown : request.message = .request id method params) :
      request.calls method = true := by
    rw [HttpRequest.calls, hown]
    exact decide_eq_true rfl
  rw [sendings, cut_append hstart]
  cases h with
  | once performed quiet own read =>
    rename_i request reply before after
    have hcut : (cut method (l ++ rest)).2 = [⟨request, reply, after ++ rest⟩] := by
      rw [performed, List.append_assoc, cut_append (silent_of_posts quiet.1), List.cons_append,
        cut_post (hcalls own), cut_silent ((silent_of_posts quiet.2).append hrest)]
    rw [hcut]
    have hnone {P : Sending → Prop} : ∀ s ∈ [(⟨request, reply, after ++ rest⟩ : Sending)].dropLast,
        P s := List.forall_mem_nil _
    refine ⟨List.cons_ne_nil _ _, by simp, fun s hs => ?_, ?_, hnone, hnone,
      fun result hresult => ?_⟩
    · obtain rfl := List.mem_singleton.mp hs
      exact ⟨id, own⟩
    · split <;> simp
    · obtain ⟨out, rfl, rfl⟩ := hx result hresult
      refine ⟨[], _, rfl, .inl ⟨fun s hs => absurd hs (Option.not_mem_none s), ?_⟩⟩
      rw [Outcome.done.inj (read.resolve_left nofun)]
  | twice performed quiet own token read =>
    rename_i request request' reply reply' before between after
    have hcut : (cut method (l ++ rest)).2 =
        [⟨request, reply, between⟩, ⟨request', reply', after ++ rest⟩] := by
      rw [performed, List.append_assoc, cut_append (silent_of_posts quiet.1), List.cons_append,
        cut_post (hcalls own.1), List.append_assoc, cut_append (silent_of_posts quiet.2.1),
        List.cons_append, cut_post (hcalls own.2),
        cut_silent ((silent_of_posts quiet.2.2).append hrest)]
      simp
    rw [hcut]
    refine ⟨List.cons_ne_nil _ _, by simp, fun s hs => ?_, ?_, fun s hs => ?_, fun s hs => ?_,
      fun result hresult => ?_⟩
    · rcases List.mem_cons.mp hs with rfl | hs
      · exact ⟨id, own.1⟩
      · obtain rfl := List.mem_singleton.mp hs
        exact ⟨id, own.2⟩
    · split <;> simp
    · obtain rfl := List.mem_singleton.mp hs
      exact .inl token
    · obtain rfl := List.mem_singleton.mp hs
      exact token.unanswered
    · obtain ⟨out, rfl, rfl⟩ := hx result hresult
      refine ⟨[_], _, rfl, .inr ⟨⟨_, rfl, token⟩, ?_⟩⟩
      rw [Outcome.done.inj (read.resolve_left nofun)]

/-- A call that has redone the handshake goes on with another attempt. -/
theorem Sends.reopened {s : Sending} {sent : List Sending} (hs : b.Reopened s)
    (hown : ∃ id, s.request.message = .request id method params)
    (hlegacy : ¬ (method = "initialize" ∨ (modernVersion params).isSome)) (hsent : sent ≠ [])
    (hlength : sent.length ≤ 2) (h : b.Sends method params sent x) :
    b.Sends method params (s :: sent) x := by
  have hlast : (s :: sent).dropLast = s :: sent.dropLast := List.dropLast_cons_of_ne_nil hsent
  refine ⟨List.forall_mem_cons.mpr ⟨hown, h.own⟩, ?_, ?_, ?_, fun result hresult => ?_⟩
  · rw [if_neg hlegacy, List.length_cons]
    omega
  · rw [hlast]
    exact List.forall_mem_cons.mpr ⟨.inr hs, h.repeated⟩
  · rw [hlast]
    exact List.forall_mem_cons.mpr ⟨hs.unanswered, h.unanswered⟩
  · obtain ⟨earlier, last, rfl, hread⟩ := h.outcome result hresult
    refine ⟨s :: earlier, last, rfl, ?_⟩
    cases earlier with
    | nil =>
      rcases hread with ⟨-, hread⟩ | ⟨⟨_, hnone, -⟩, -⟩
      · exact .inl ⟨fun s' hs' => by cases hs'; exact hs, hread⟩
      · cases hnone
    | cons s' earlier =>
      rw [List.getLast?_cons_cons]
      exact hread

/-- A re-initialisation sends no other request than `initialize`. -/
theorem foreign_reopening (hmethod : method ≠ "initialize") (epoch : Nat) :
    (b.reinitialize epoch).Uses (HttpOp.Foreign method) := by
  have hhandshake : b.handshake.Uses (HttpOp.Foreign method) := by
    refine (traffic_handshake (P := fun request => request.calls method = false)
      (fun id bearer headers sessionId => ?_) fun bearer sessionId => rfl).mono
        fun _ => HttpOp.Attempt.foreign
    exact decide_eq_false (Ne.symm hmethod)
  have honce : b.reinitializeOnce.Uses (HttpOp.Foreign method) := by
    simp only [reinitializeOnce, Prog.bind_eq, Prog.perform_bind]
    refine ⟨.of_none rfl, fun stale => hhandshake.bind fun outcome => ⟨.of_none rfl, fun _ => ?_⟩⟩
    cases outcome with
    | ok init => exact ⟨.of_none rfl, fun _ => ⟨.of_none rfl, fun _ => trivial⟩⟩
    | error e => exact ⟨.of_none rfl, fun _ => trivial⟩
  refine ⟨.of_none rfl, fun _ => Prog.Uses.andFinally ⟨.of_none rfl, fun seen => ?_⟩ (.of_none rfl)⟩
  simp only [Prog.ret_bind]
  split
  · trivial
  · exact honce

theorem silent_reopening (hmethod : method ≠ "initialize") {epoch : Nat}
    {outcome : Outcome (BackendResult Unit)}
    (h : (b.reinitialize epoch).Performs l outcome) : Silent method l := by
  intro a ha request reply hpost
  have hforeign := h.uses (foreign_reopening hmethod epoch) a ha
  obtain ⟨o, answer⟩ := a
  cases o <;> cases hpost
  exact hforeign _ rfl

/-- A call that finds the session gone and redoes the handshake. -/
theorem sends_again {start first redone second : List (Turn HttpOp)} {id id' : JsonRpcId}
    {failure : Failure} {epoch : Nat} {outcome : Outcome (Except Failure Value)}
    (hlegacy : ¬ (method = "initialize" ∨ (modernVersion params).isSome))
    (hstart : Silent method start)
    (hfirst : b.Attempted (.request id method params) first (.done (.error failure)))
    (hlost : failure.sessionLost ≠ none)
    (hredone : (b.reinitialize epoch).Performs redone (.done (.ok ())))
    (hsecond : b.Attempted (.request id' method params) second outcome)
    (hx : ∀ result, x = .done result → ∃ out, outcome = .done out ∧ result = giveUp out) :
    b.Sends method params (sendings method (start ++ (first ++ (redone ++ second)))) x := by
  obtain ⟨hlegacy', -⟩ := not_or.mp hlegacy
  have hsilent := silent_reopening hlegacy' hredone
  obtain ⟨hne, hlength, hsends⟩ := hsecond.sends hsilent silent_nil hx
  rw [List.append_nil] at hne hlength hsends
  rw [sendings, cut_append hstart]
  cases hfirst with
  | once performed quiet own read =>
    rename_i request reply before after
    have hcalls : request.calls method = true := by
      rw [HttpRequest.calls, own]
      exact decide_eq_true rfl
    have hcut : (cut method (first ++ (redone ++ second))).2 =
        ⟨request, reply, after ++ (redone ++ (cut method second).1)⟩ ::
          sendings method (redone ++ second) := by
      rw [performed, List.append_assoc, cut_append (silent_of_posts quiet.1), List.cons_append,
        cut_post hcalls, cut_append (silent_of_posts quiet.2), cut_append hsilent, sendings,
        cut_append hsilent]
    rw [hcut]
    have hread := Outcome.done.inj (read.resolve_left nofun)
    have hreopened : b.Reopened ⟨request, reply, after ++ (redone ++ (cut method second).1)⟩ := by
      refine ⟨⟨failure, hread.symm, hlost⟩, epoch, redone, ⟨after, (cut method second).1, ?_⟩,
        hredone⟩
      rw [List.append_assoc]
    exact Sends.reopened hreopened ⟨id, own⟩ hlegacy hne hlength hsends
  | twice performed quiet own token read =>
    have hread := Outcome.done.inj (read.resolve_left nofun)
    exact absurd (sessionLost_readRetry hread.symm) hlost

/-- **How often a call sends its request.** Whatever the server and the token manager answer, a
call sends its request at most three times, at most twice when it is modern or the handshake
itself; it sends it again only after a 401 for which a token was obtained, or after a reply that
said that the session is gone and a successful re-initialisation; it never sends it again after a
result; and its outcome is that of the last request that it sent. -/
theorem sendRequest_sends (b : HttpBackend) {method : String} {params : Option Value} {retry : Bool}
    {l : List (Turn HttpOp)} {x : Outcome (BackendResult Value)}
    (h : (b.sendRequest method params retry).Performs l x) :
    b.Sends method params (sendings method l) x := by
  simp only [sendRequest, Prog.bind_eq, Prog.perform_bind] at h
  obtain ⟨epoch, l, rfl, h⟩ := h
  have hstart : Silent method [⟨.loadEpoch, epoch⟩] := by
    intro a ha request reply hpost
    obtain rfl := List.mem_singleton.mp ha
    cases hpost
  rcases h.of_bind with ⟨first, outcome, rest, rfl, hfirst, hrest⟩ | ⟨rfl, hpanic⟩
  · obtain ⟨id, hattempted⟩ := attempted_of_done hfirst
    -- the first attempt is the only one
    have only {rest : List (Turn HttpOp)} (hrest : Silent method rest)
        (hx : ∀ result, x = .done result → result = giveUp outcome) :
        b.Sends method params (sendings method (⟨.loadEpoch, epoch⟩ :: (first ++ rest))) x :=
      (hattempted.sends hstart hrest fun result hresult => ⟨outcome, rfl, hx result hresult⟩).2.2
    rcases outcome with failure | v
    · dsimp only at hrest
      split at hrest
      · obtain ⟨rfl, rfl⟩ := hrest
        exact only silent_nil fun _ hx => (Outcome.done.inj hx).symm
      · rename_i hrepeats
        simp only [not_or] at hrepeats
        obtain ⟨hlost, hmethod, hmodern⟩ := hrepeats
        rcases Prog.Performs.of_bind hrest with
          ⟨redone, reopened, rest, rfl, hredone, hrest⟩ | ⟨rfl, hpanic⟩
        · have hsilent := silent_reopening hmethod hredone
          cases reopened with
          | error e =>
            obtain ⟨rfl, rfl⟩ := hrest
            exact only (hsilent.append silent_nil) fun _ hx => (Outcome.done.inj hx).symm
          | ok u =>
            have hlegacy : ¬ (method = "initialize" ∨ (modernVersion params).isSome) :=
              not_or.mpr ⟨hmethod, hmodern⟩
            rcases Prog.Performs.of_bind hrest with
              ⟨second, outcome, rest, rfl, hsecond, hrest⟩ | ⟨rfl, hpanic⟩
            · obtain ⟨rfl, rfl⟩ := hrest
              obtain ⟨id', hattempted'⟩ := attempted_of_done hsecond
              rw [List.append_nil]
              exact sends_again hlegacy hstart hattempted hlost hredone hattempted'
                fun _ hx => ⟨_, rfl, (Outcome.done.inj hx).symm⟩
            · -- a legacy request does not panic over its headers
              obtain ⟨id', hattempted'⟩ := (attempted_sendRequestInner hpanic).resolve_right
                fun h => hmodern h.1
              exact sends_again hlegacy hstart hattempted hlost hredone hattempted'
                fun _ hx => by cases hx
        · exact only (silent_reopening hmethod hpanic) fun _ hx => by cases hx
    · obtain ⟨rfl, rfl⟩ := hrest
      exact only silent_nil fun _ hx => (Outcome.done.inj hx).symm
  · rcases attempted_sendRequestInner hpanic with ⟨id, hattempted⟩ | ⟨-, hquiet, -⟩
    · have hsends : b.Sends method params
          (sendings method ([⟨.loadEpoch, epoch⟩] ++ (l ++ []))) .panicked :=
        (hattempted.sends hstart silent_nil (x := .panicked) fun _ hx => by cases hx).2.2
      rwa [List.append_nil] at hsends
    · exact Sends.nothing (hstart.append (silent_of_posts hquiet))

end Calls

end HttpBackend

/-- A listing, as the only task. -/
def listingCall (_ : Unit) : Prog HttpOp (BackendResult Value) :=
  guardedHttp.sendRequest "tools/list" none true

/-- Its session is gone, in the new one its token is refused, and then the server is down. -/
def threefoldRun : List (Unit × HttpChoice) :=
  List.flatten [turns () lostAttempt,
    turns () [{}, {}, {}, {}, {}, {}, .opened "s2", {}, {}, {}, .noted, {}, {}, {}, {}],
    turns () [{}, {}, {}, { reply := .response 401 [] (.ok "") }, {}, {}, {}, {},
      { reply := .response 503 [] (.ok "") }]]

/-- It sends its request three times, and has the outcome of the third. -/
theorem listing_is_sent_three_times :
    ∃ l result, (listingCall ()).Performs l (.done result) ∧
      (sendings "tools/list" l).length = 3 ∧
      guardedHttp.Sends "tools/list" none (sendings "tools/list" l) (.done result) := by
  have hrun : ((httpMachine Unit).recorded.play threefoldRun
      ⟨⟨guardedStart "t2", []⟩, listingCall⟩).map (fun c =>
        decide ((c.task ()).result.isSome ∧
          (sendings "tools/list" (transcript () c.shared.log)).length = 3)) = some true := by
    decide +kernel
  obtain ⟨c, hc, hend⟩ := Option.map_eq_some_iff.mp hrun
  obtain ⟨hreturned, hthree⟩ := of_decide_eq_true hend
  obtain ⟨result, hresult⟩ := Option.isSome_iff_exists.mp hreturned
  have hperformed := performs_of_play hc (Prog.result_eq_some.mp hresult)
  exact ⟨_, result, hperformed, hthree, guardedHttp.sendRequest_sends hperformed⟩

end HeadlessMcp
