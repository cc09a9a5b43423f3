import ByteBattles.Api.Effects

/-!
# Tokens go back to a login

Tokens are made by a login, or from a refresh token that has not expired.  So a token
that is accepted goes back to a login of its user, which is not older than the two
lifetimes together.
-/

namespace ByteBattles.Api

open ByteBattles.Lib

variable {lib : Libraries} {cfg : Config} {env : Environment} {s : Store} {st st' : State}

/-! ## Where tokens come from -/

theorem respond_eq_ok {α : Type} {response : α → Response} {m : Route α} {r : Response}
    (h : (respond response m s).1 = .ok r) : ∃ a, (m s).1 = .ok a ∧ response a = r := by
  rw [respond, Handler.bind_apply] at h
  cases hm : m s with
  | mk result t =>
      rw [hm] at h
      cases result with
      | error e => cases h
      | ok a => exact ⟨a, rfl, Except.ok.inj h⟩

/-- A login gives out tokens of the user it has found, whose password it has verified. -/
theorem login_ok {username password : Str} :
    (login lib cfg env username password).Ends s fun result _ => ∀ tokens, result = .ok tokens →
      ∃ user, userByLogin s.users username = some user ∧
        lib.verify password user.password_hash = true ∧
        tokens = ⟨createAccessToken cfg env.now ⟨user.id⟩,
          createRefreshToken cfg env.now ⟨user.id⟩⟩ := by
  unfold login
  refine Handler.Ends.refuseIf_bind (fun _ _ h => by cases h) fun _ => ?_
  refine Environment.ends_call (fun _ _ h => by cases h) fun _ => ?_
  apply Handler.Ends.read_bind
  cases huser : userByLogin s.users username with
  | none =>
      apply Handler.Ends.raise
      intro tokens h
      cases h
  | some user =>
      refine Handler.Ends.refuseIf_bind (fun _ _ h => by cases h) fun hverify => ?_
      apply Handler.Ends.pure
      intro tokens h
      exact ⟨user, rfl, by simpa using hverify, (Except.ok.inj h).symm⟩

inductive Issues (lib : Libraries) (cfg : Config) (env : Environment) (s : Store) :
    Request → Token → Prop
  | login {username password : Str} {user : User} {token : Token}
      (huser : userByLogin s.users username = some user)
      (hverify : lib.verify password user.password_hash = true)
      (htoken : token = createAccessToken cfg env.now ⟨user.id⟩ ∨
        token = createRefreshToken cfg env.now ⟨user.id⟩) :
      Issues lib cfg env s (.login username password) token
  | refresh {refresh_token : Token} {payload : TokenPayload}
      (hverify : verifyToken env.now refresh_token refreshType = .ok payload) :
      Issues lib cfg env s (.refresh refresh_token) (createAccessToken cfg env.now payload)

theorem issues_of_mem_tokens {request : Request} {response : Response} {token : Token}
    (h : (serve lib cfg env request s).1 = .ok response) (htoken : token ∈ response.tokens) :
    Issues lib cfg env s request token := by
  cases request with
  | login username password =>
      obtain ⟨tokens, hlogin, rfl⟩ := respond_eq_ok h
      obtain ⟨user, huser, hverify, rfl⟩ := login_ok _ hlogin
      exact .login huser hverify (by simpa [Response.tokens] using htoken)
  | refresh refresh_token =>
      obtain ⟨access_token, hrefresh, rfl⟩ := respond_eq_ok h
      obtain ⟨payload, hverify, rfl⟩ := refreshAccessToken_eq_ok.mp hrefresh
      obtain rfl : token = _ := by simpa [Response.tokens] using htoken
      exact .refresh hverify
  | _ =>
      obtain ⟨a, -, rfl⟩ := respond_eq_ok h
      cases htoken

theorem login_of_served {request : Request} {tokens : LoginResponse}
    (h : (serve lib cfg env request s).1 = .ok (.login tokens)) :
    ∃ payload, tokens =
      ⟨createAccessToken cfg env.now payload, createRefreshToken cfg env.now payload⟩ := by
  cases request with
  | login username password =>
      obtain ⟨tokens, hlogin, hresponse⟩ := respond_eq_ok h
      obtain rfl := Response.login.inj hresponse
      obtain ⟨user, -, -, rfl⟩ := login_ok _ hlogin
      exact ⟨_, rfl⟩
  | _ =>
      obtain ⟨a, -, hresponse⟩ := respond_eq_ok h
      cases hresponse

theorem refresh_of_served {request : Request} {token : Token}
    (h : (serve lib cfg env request s).1 = .ok (.refreshed token)) :
    ∃ payload, token = createAccessToken cfg env.now payload := by
  cases request with
  | refresh refresh_token =>
      obtain ⟨access_token, hrefresh, hresponse⟩ := respond_eq_ok h
      obtain rfl := Response.refreshed.inj hresponse
      obtain ⟨payload, -, rfl⟩ := refreshAccessToken_eq_ok.mp hrefresh
      exact ⟨payload, rfl⟩
  | _ =>
      obtain ⟨a, -, hresponse⟩ := respond_eq_ok h
      cases hresponse

/-! ## Neither kind passes for the other -/

theorem accessType_ne_refreshType : accessType ≠ refreshType := by decide

theorem type_of_verifyToken {now now' expire : Nat} {payload payload' : TokenPayload}
    {token_type token_type' : Str}
    (h : verifyToken now (createToken now' payload expire token_type) token_type' = .ok payload') :
    token_type = token_type' := by
  obtain ⟨claims, htoken, -, htype, -⟩ := verifyToken_eq_ok.mp h
  obtain rfl := Token.signed.inj htoken
  exact htype

theorem getCurrentUser_refreshToken (users : List User) (now now' : Nat) (payload : TokenPayload)
    (user : User) :
    getCurrentUser users now (some (createRefreshToken cfg now' payload)) ≠ .ok user := by
  intro h
  obtain ⟨_, payload', htoken, hverify, -⟩ := getCurrentUser_eq_ok.mp h
  obtain rfl := Option.some.inj htoken
  exact accessType_ne_refreshType (type_of_verifyToken hverify).symm

theorem refreshAccessToken_accessToken (now now' : Nat) (payload : TokenPayload) (token : Token) :
    refreshAccessToken cfg now (createAccessToken cfg now' payload) ≠ .ok token := by
  intro h
  obtain ⟨payload', hverify, -⟩ := refreshAccessToken_eq_ok.mp h
  exact accessType_ne_refreshType (type_of_verifyToken hverify)

/-! ## The invariant -/

def Event.LoginOf (lib : Libraries) (e : Event) (id : Int) : Prop :=
  ∃ username password tokens user, e.request = .login username password ∧
    e.result = .ok (.login tokens) ∧ userByLogin e.store.users username = some user ∧
    user.id = id ∧ lib.verify password user.password_hash = true

/-- A token that goes back to a login at `t₀` has an end. -/
inductive EndsAfter (cfg : Config) (t₀ : Nat) (claims : Claims) : Prop
  | access (htype : claims.type = accessType)
      (hexp : claims.exp * second ≤
        t₀ + days cfg.REFRESH_TOKEN_EXPIRE_DAYS + minutes cfg.ACCESS_TOKEN_EXPIRE_MINUTES)
  | refresh (htype : claims.type = refreshType)
      (hexp : claims.exp * second ≤ t₀ + days cfg.REFRESH_TOKEN_EXPIRE_DAYS)

def Traced (lib : Libraries) (cfg : Config) (history : List Event) (claims : Claims) : Prop :=
  ∃ e ∈ history, ∃ id, e.LoginOf lib id ∧ claims.sub = Str.ofInt id ∧
    EndsAfter cfg e.env.now claims

structure Traceable (lib : Libraries) (cfg : Config) (st : State) : Prop where
  served : ∀ e ∈ st.history, (serve lib cfg e.env e.request e.store).1 = e.result
  past : ∀ e ∈ st.history, e.env.now ≤ st.now
  traced : ∀ claims, .signed claims ∈ st.issued → Traced lib cfg st.history claims

theorem Traced.mono {history history' : List Event} {claims : Claims}
    (h : Traced lib cfg history claims) (hsub : history ⊆ history') :
    Traced lib cfg history' claims := by
  obtain ⟨e, he, id, hlogin⟩ := h
  exact ⟨e, hsub he, id, hlogin⟩

theorem exp_le (now expire : Nat) : (now + expire) / second * second ≤ now + expire :=
  Nat.div_mul_le_self _ _

/-- What a refresh makes of a token that goes back to a login. -/
theorem Traced.refreshed {history : List Event} {claims : Claims} {payload : TokenPayload}
    {now : Nat} (h : Traced lib cfg history claims) (hnow : now < claims.exp * second)
    (htype : claims.type = refreshType) (hsub : PyNumber.int claims.sub = some payload.sub) :
    Traced lib cfg history ⟨Str.ofInt payload.sub, accessType,
      (now + minutes cfg.ACCESS_TOKEN_EXPIRE_MINUTES) / second⟩ := by
  obtain ⟨e, he, id, hlogin, hid, hends⟩ := h
  rw [hid] at hsub
  obtain rfl := PyNumber.eq_of_int_ofInt hsub
  cases hends with
  | access haccess _ => exact absurd (haccess.symm.trans htype) accessType_ne_refreshType
  | refresh _ hexp =>
      refine ⟨e, he, payload.sub, hlogin, rfl, .access rfl ?_⟩
      have := exp_le now (minutes cfg.ACCESS_TOKEN_EXPIRE_MINUTES)
      simp only
      omega

theorem Traceable.issued {request : Request} {claims : Claims} {response : Response}
    (hst : Traceable lib cfg st) (htoken : st.CanPresent request.token)
    (hserve : (serve lib cfg env request st.store).1 = .ok response)
    (h : .signed claims ∈ response.tokens) :
    Traced lib cfg (st.history ++ [⟨st.store, env, request, .ok response⟩]) claims := by
  have hissues := issues_of_mem_tokens hserve h
  generalize hsigned : Token.signed claims = token at hissues
  cases hissues with
  | login huser hverify htoken =>
      obtain ⟨tokens, -, rfl⟩ := respond_eq_ok hserve
      refine ⟨_, List.mem_append_right _ (List.mem_singleton.mpr rfl), _,
        ⟨_, _, _, _, rfl, rfl, huser, rfl, hverify⟩, ?_⟩
      rcases htoken with rfl | rfl
      · obtain rfl := Token.signed.inj hsigned
        refine ⟨rfl, .access rfl ?_⟩
        have := exp_le env.now (minutes cfg.ACCESS_TOKEN_EXPIRE_MINUTES)
        simp only
        omega
      · obtain rfl := Token.signed.inj hsigned
        exact ⟨rfl, .refresh rfl (exp_le _ _)⟩
  | refresh hverify =>
      obtain ⟨presented, rfl, hnow, htype, hsub⟩ := verifyToken_eq_ok.mp hverify
      obtain rfl := Token.signed.inj hsigned
      exact ((hst.traced presented htoken).refreshed hnow htype hsub).mono
        (List.subset_append_left _ _)

theorem Traceable.step {a : Action} (hst : Traceable lib cfg st)
    (h : step lib cfg st a = some st') : Traceable lib cfg st' := by
  cases moves_of_step h with
  | @request env request result store hnow htoken hserve _ =>
      refine ⟨fun e he => ?_, fun e he => ?_, fun claims hclaims => ?_⟩
      · rcases List.mem_append.mp he with he | he
        · exact hst.served e he
        · rw [List.mem_singleton.mp he, hserve]
      · rcases List.mem_append.mp he with he | he
        · exact (hst.past e he).trans hnow
        · rw [List.mem_singleton.mp he]
      · rw [State.issued, List.flatMap_append, List.mem_append] at hclaims
        rcases hclaims with hclaims | hclaims
        · exact (hst.traced claims hclaims).mono (List.subset_append_left _ _)
        · rw [List.flatMap_singleton, Event.issued] at hclaims
          cases result with
          | error e => cases hclaims
          | ok response => exact hst.issued htoken (congrArg Prod.fst hserve) hclaims
  | promote id => exact ⟨hst.served, hst.past, hst.traced⟩
  | pick hjobs => exact ⟨hst.served, hst.past, hst.traced⟩
  | requeue hpicked => exact ⟨hst.served, hst.past, hst.traced⟩
  | judged result hpicked => exact ⟨hst.served, hst.past, hst.traced⟩

theorem traceable_start : Traceable lib cfg start where
  served := fun e he => by cases he
  past := fun e he => by cases he
  traced := fun claims hclaims => by cases hclaims

theorem traceable_of_reachable (h : (system lib cfg).Reachable st) : Traceable lib cfg st := by
  refine System.PreservedUnder.invariant (I := Traceable lib cfg) ?_ ?_ h
  · intro st st' a _ hst _ hstep
    exact hst.step hstep
  · rintro _ rfl
    exact traceable_start

/-! ## The result -/

/-- **An accepted token goes back to a login of its user**, not longer ago than the two
lifetimes together, and neither kind of token passes for the other. -/
theorem authentication_traceable (h : (system lib cfg).Reachable st) :
    (∀ now token user, st.now ≤ now → st.CanPresent token →
      getCurrentUser st.store.users now token = .ok user →
        ∃ e ∈ st.history, e.LoginOf lib user.id ∧ e.env.now ≤ now ∧
          now < e.env.now + days cfg.REFRESH_TOKEN_EXPIRE_DAYS +
            minutes cfg.ACCESS_TOKEN_EXPIRE_MINUTES) ∧
    (∀ e ∈ st.history, ∀ tokens, e.result = .ok (.login tokens) →
      (∀ users now user, getCurrentUser users now (some tokens.refresh_token) ≠ .ok user) ∧
      ∀ now access_token, refreshAccessToken cfg now tokens.access_token ≠ .ok access_token) ∧
    ∀ e ∈ st.history, ∀ token, e.result = .ok (.refreshed token) →
      ∀ now access_token, refreshAccessToken cfg now token ≠ .ok access_token := by
  have hst := traceable_of_reachable h
  refine ⟨fun now token user hnow htoken haccept => ?_, fun e he tokens hlogin => ?_,
    fun e he token hrefreshed => ?_⟩
  · obtain ⟨presented, payload, rfl, hverify, huser⟩ := getCurrentUser_eq_ok.mp haccept
    obtain ⟨claims, rfl, hexp, htype, hsub⟩ := verifyToken_eq_ok.mp hverify
    obtain ⟨e, he, id, hlogin, hid, hends⟩ := hst.traced claims htoken
    rw [hid] at hsub
    obtain rfl : user.id = id :=
      (userById_eq_some huser).2.trans (PyNumber.eq_of_int_ofInt hsub).symm
    refine ⟨e, he, hlogin, (hst.past e he).trans hnow, ?_⟩
    cases hends with
    | access _ hbound => exact hexp.trans_le hbound
    | refresh hrefresh _ => exact absurd (htype.symm.trans hrefresh) accessType_ne_refreshType
  · obtain ⟨payload, rfl⟩ := login_of_served ((hst.served e he).trans hlogin)
    exact ⟨fun users now user => getCurrentUser_refreshToken users now _ payload user,
      fun now token => refreshAccessToken_accessToken now _ payload token⟩
  · obtain ⟨payload, rfl⟩ := refresh_of_served ((hst.served e he).trans hrefreshed)
    exact fun now token => refreshAccessToken_accessToken now _ payload token

def sessionRun : List Action :=
  [.request (quiet 1 CreateProblem.zeros) (.register ann),
    .request (quiet 5 CreateProblem.zeros) (.login ann.username ann.password)]

theorem authentication_traceable_session :
    ∃ st, (system plain halfHour).Reachable st ∧ ∃ user,
      getCurrentUser st.store.users 7 (some annToken) = .ok user ∧
        ∃ e ∈ st.history, e.LoginOf plain user.id ∧ e.env.now ≤ 7 ∧
          7 < e.env.now + days 1 + minutes 30 := by
  obtain ⟨st, hpath, hnow, hpresent, haccept⟩ :=
    System.exists_path (system plain halfHour) (fun _ _ => True) start sessionRun
      (fun st => st.now ≤ 7 ∧ st.CanPresent (some annToken) ∧
        (getCurrentUser st.store.users 7 (some annToken)).isOk = true) (by decide)
  have hreach : (system plain halfHour).Reachable st := ⟨_, rfl, hpath⟩
  cases huser : getCurrentUser st.store.users 7 (some annToken) with
  | error e => simp [huser, Except.isOk, Except.toBool] at haccept
  | ok user =>
      exact ⟨st, hreach, user, huser,
        (authentication_traceable hreach).1 7 _ user hnow hpresent huser⟩

end ByteBattles.Api
