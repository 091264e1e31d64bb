/-
  `request` of the web client (`web/app/api.js`), and how `library.js` reacts to the error
  it throws.

  The client looks for the code of an error under `code`; the server writes it under
  `error` (`Response::error`).  So the code the client sees is always `unknown`
  (`readError_error`), and a token that the server no longer knows is never dropped
  (`Stale.run`).
-/
import NarMusic.Http.Response
import NarMusic.Lib.Run
import NarMusic.Web.Json

namespace NarMusic.Web

open Cxx Value

/-! ## `request` -/

/-- What `fetch` resolves to. -/
structure Received where
  status : ℤ
  statusText : Text
  body : Str

def received (r : Response) : Received := ⟨r.status, isomorphicDecode r.statusText, r.body⟩

/-- An `ApiError` with the arguments of its constructor. -/
structure ApiError where
  status : ℤ
  code : Value
  message : Value

def Received.ok (res : Received) : Bool := 200 ≤ res.status && res.status ≤ 299

/-- `response.json()`. -/
def Received.json (res : Received) : Option Value := (Utf8.decode res.body).bind parse

/-- The error of a response that is not `ok`. -/
def readError (res : Received) : ApiError :=
  match res.json with
  | none => ⟨res.status, str "unknown".toList, str res.statusText⟩
  | some body =>
    { status := res.status
      code := orElse (body.get "code".toList) (str "unknown".toList)
      message := orElse (body.get "message".toList) (orElse (body.get "msg".toList) (str res.statusText)) }

/-- What an attempt of `request` comes to. -/
inductive Outcome where
  | again
  | throws (error : ApiError)
  | returns (res : Received)

/-- A response to attempt number `attempt`. -/
def onResponse (retries attempt : ℕ) (res : Received) : Outcome :=
  if res.status = 429 ∧ attempt < retries then .again
  else if res.ok then .returns res
  else .throws (readError res)

/-- The end of attempt number `attempt` without a response. -/
def onFailure (retries attempt : ℕ) (timeout : Bool) : Outcome :=
  if attempt < retries then .again
  else if timeout then .throws ⟨0, str "timeout".toList, str "请求超时，请检查网络连接".toList⟩
  else .throws ⟨0, str "network".toList, str "网络错误，请检查连接".toList⟩

/-! ## The body of an error -/

theorem error_ok (status : ℤ) (statusText : Str) (code msg : Text) :
    ∃ r, Response.error status statusText (Utf8.encode code) (Utf8.encode msg) = .ok r ∧ r.status = status ∧
      r.statusText = statusText ∧
      r.body = Utf8.encode (objectText "error".toList "message".toList code msg) := by
  have hopen : String.utf8EncodeChar '{' = [123] := by decide +kernel
  have hclose : String.utf8EncodeChar '}' = [125] := by decide +kernel
  have hcolon : String.utf8EncodeChar ':' = [58] := by decide +kernel
  have hcomma : String.utf8EncodeChar ',' = [44] := by decide +kernel
  have herror : Utf8.encode (quote "error".toList) = 34 :: (lit "error" ++ [34]) := by decide +kernel
  have hmessage : Utf8.encode (quote "message".toList) = 34 :: (lit "message" ++ [34]) := by decide +kernel
  obtain ⟨r, hr, hstatus, hreason, hbody⟩ :=
    Response.error_ok (dumpString_encode code) (dumpString_encode msg) status statusText
  refine ⟨r, hr, hstatus, hreason, hbody.trans ?_⟩
  simp only [objectText, Utf8.encode_cons, Utf8.encode_append, Utf8.encode_nil, hopen, hclose, hcolon, hcomma,
    herror, hmessage, Json.joinComma, List.append_assoc, List.cons_append, List.nil_append]

/-- **The error the client throws** has the status and the message, and no code. -/
theorem readError_error {status : ℤ} {statusText : Str} {code msg : Text} {r : Response}
    (h : Response.error status statusText (Utf8.encode code) (Utf8.encode msg) = .ok r) :
    readError (received r) = ⟨status, str "unknown".toList,
      str (if msg = [] then isomorphicDecode statusText else msg)⟩ := by
  obtain ⟨r', hr', hstatus, hreason, hbody⟩ := error_ok status statusText code msg
  obtain rfl : r = r' := Except.ok.inj (h.symm.trans hr')
  have hjson : (received r).json =
      some (obj [("error".toList, str code), ("message".toList, str msg)]) := by
    show (Utf8.decode r.body).bind parse = _
    rw [hbody, Utf8.decode_encode, Option.bind_some, parse_objectText]
  have hcode : (obj [("error".toList, str code), ("message".toList, str msg)]).get "code".toList = none := rfl
  have hmessage : (obj [("error".toList, str code), ("message".toList, str msg)]).get "message".toList =
      some (str msg) := rfl
  have hmsg : (obj [("error".toList, str code), ("message".toList, str msg)]).get "msg".toList = none := rfl
  rw [readError, hjson]
  simp only [hcode, hmessage, hmsg, orElse, truthy]
  show (⟨r.status, _, if decide (msg ≠ []) = true then str msg else str (isomorphicDecode r.statusText)⟩ :
    ApiError) = _
  rw [hstatus, hreason]
  by_cases hnil : msg = []
  · simp [hnil]
  · simp [hnil]

/-! ## The token of `library.js` -/

/-- The variables of the module and the `protection_token` of the local storage. -/
structure Client where
  protectionEnabled : Option Bool := none
  protectionToken : Option Text := none
  stored : Option Text := none
  /-- The password dialog is open. -/
  asking : Bool := false

/-- What `ensureProtectionToken` has to do. -/
inductive Need where
  | status
  | nothing
  | token (token : Text)
  | password
  deriving DecidableEq

def ensureProtectionToken (c : Client) : Need :=
  match c.protectionEnabled, c.protectionToken with
  | none, _ => .status
  | some false, _ => .nothing
  | some true, some token => .token token
  | some true, none => .password

inductive Event where
  /-- The page is loaded. -/
  | load
  /-- `init` gets the protection status. -/
  | initStatus (enabled : Bool)
  /-- `ensureProtectionToken` gets it, or fails to. -/
  | ensureStatus (answer : Option Bool)
  /-- A deletion is begun, up to the request or the dialog. -/
  | delete
  /-- The dialog ends with a token. -/
  | verified (token : Text)
  | cancelled
  /-- `api.libraryDelete` or `api.libraryBatchDelete` throws. -/
  | deleteFailed (error : ApiError)

/-- `error.code === 'protection_required'`. -/
def ApiError.protectionRequired (error : ApiError) : Bool :=
  match error.code with
  | str code => code = "protection_required".toList
  | _ => false

def Client.step (c : Client) : Event → Client
  | .load => { stored := c.stored }
  | .initStatus enabled =>
    { c with
      protectionEnabled := some enabled
      protectionToken := if enabled then c.stored else c.protectionToken }
  | .ensureStatus (some enabled) =>
    { c with
      protectionEnabled := some enabled
      protectionToken := if enabled ∧ c.protectionToken = none then c.stored else c.protectionToken }
  | .ensureStatus none => { c with protectionEnabled := some false }
  | .delete => { c with asking := c.asking || ensureProtectionToken c = .password }
  | .verified token => { c with protectionToken := some token, stored := some token, asking := false }
  | .cancelled => { c with asking := false }
  | .deleteFailed error =>
    if error.protectionRequired then { c with protectionToken := none, stored := none } else c

/-- The server refuses every deletion for want of a valid token, and a password is given where the
    dialog asks for one. -/
def Refused (c : Client) : Event → Prop
  | .deleteFailed error => ∃ msg r, Response.error 403 (lit "Forbidden")
      (Utf8.encode "protection_required".toList) (Utf8.encode msg) = .ok r ∧ error = readError (received r)
  | .verified _ => c.asking = true
  | _ => True

/-- The client keeps a token and does not ask for the password. -/
structure Stale (token : Text) (c : Client) : Prop where
  stored : c.stored = some token
  held : c.protectionToken = some token ∨ c.protectionToken = none ∧ c.protectionEnabled ≠ some true
  asking : c.asking = false

theorem Stale.need {token : Text} {c : Client} (h : Stale token c) : ensureProtectionToken c ≠ .password := by
  obtain ⟨enabled, held, stored, asking⟩ := c
  rcases h.held with rfl | ⟨rfl, hne⟩
  · rcases enabled with _ | _ | _ <;> simp [ensureProtectionToken]
  · rcases enabled with _ | _ | _
    · simp [ensureProtectionToken]
    · simp [ensureProtectionToken]
    · exact absurd rfl hne

/-- A refusal is not recognised. -/
theorem Refused.code {c : Client} {error : ApiError} (h : Refused c (.deleteFailed error)) :
    error.protectionRequired = false := by
  obtain ⟨msg, r, hr, rfl⟩ := h
  rw [ApiError.protectionRequired, readError_error hr]
  show decide ("unknown".toList = "protection_required".toList) = false
  decide

/-- The step: a refused deletion leaves the token, and so does all that does not ask for a password. -/
theorem Stale.step {token : Text} {c : Client} {e : Event} (h : Stale token c) (he : Refused c e) :
    Stale token (c.step e) := by
  have hneed := h.need
  obtain ⟨hstored, hheld, hasking⟩ := h
  cases e with
  | load => exact ⟨hstored, Or.inr ⟨rfl, by simp [Client.step]⟩, rfl⟩
  | initStatus enabled =>
    refine ⟨hstored, ?_, hasking⟩
    cases enabled with
    | true => exact Or.inl hstored
    | false => exact hheld.imp_right fun hnone => ⟨hnone.1, by simp [Client.step]⟩
  | ensureStatus answer =>
    cases answer with
    | none => exact ⟨hstored, hheld.imp_right fun hnone => ⟨hnone.1, by simp [Client.step]⟩, hasking⟩
    | some enabled =>
      refine ⟨hstored, ?_, hasking⟩
      rcases hheld with hsome | ⟨hnone, -⟩
      · exact Or.inl (by simp [Client.step, hsome])
      · cases enabled with
        | true => exact Or.inl (by simp [Client.step, hnone, hstored])
        | false => exact Or.inr ⟨by simp [Client.step, hnone], by simp [Client.step]⟩
  | delete => exact ⟨hstored, hheld, by simp [Client.step, hasking, hneed]⟩
  | verified t => exact absurd (he.symm.trans hasking) (by simp)
  | cancelled => exact ⟨hstored, hheld, rfl⟩
  | deleteFailed error =>
    have hcode := Refused.code he
    have hstep : c.step (.deleteFailed error) = c := by simp [Client.step, hcode]
    rw [hstep]
    exact ⟨hstored, hheld, hasking⟩

theorem Stale.run {token : Text} {c : Client} {run : List Event} (h : Stale token c)
    (hrun : Run.Each Client.step Refused c run) : Stale token (Run.exec Client.step c run) :=
  hrun.inv (fun _ _ => Stale.step) h

/-! ## The envelope -/

/-- **The error of a response** is the one the server gave only when its code is the one the client
    assumes; a refused deletion never makes the client give up its token. -/
theorem error_envelope (attempt : ℕ) (status : ℤ) (statusText : Str) (code msg : Text)
    (hstatus : ¬ (200 ≤ status ∧ status ≤ 299)) (token : Text) (c : Client) (run : List Event)
    (hc : Stale token c) (hrun : Run.Each Client.step Refused c run) :
    (∃ r, Response.error status statusText (Utf8.encode code) (Utf8.encode msg) = .ok r ∧
        (onResponse attempt attempt (received r) = .throws ⟨status, str code, str msg⟩ ↔
          code = "unknown".toList ∧ (msg ≠ [] ∨ statusText = []))) ∧
      Stale token (Run.exec Client.step c run) := by
  refine ⟨?_, hc.run hrun⟩
  obtain ⟨r, hr, hcode, -, -⟩ := error_ok status statusText code msg
  have hok : (received r).ok = false := by
    show (decide (200 ≤ r.status) && decide (r.status ≤ 299)) = false
    rw [hcode, ← Bool.not_eq_true, Bool.and_eq_true, decide_eq_true_eq, decide_eq_true_eq]
    exact hstatus
  have hempty : isomorphicDecode statusText = [] ↔ statusText = [] := List.map_eq_nil_iff
  refine ⟨r, hr, ?_⟩
  simp only [onResponse, lt_irrefl, and_false, if_false, hok, Bool.false_eq_true, readError_error hr,
    Outcome.throws.injEq, ApiError.mk.injEq, Value.str.injEq, true_and]
  by_cases hmsg : msg = []
  · simp [hmsg, hempty, eq_comm]
  · simp [hmsg, eq_comm]

/-- A client whose token has died with the server process. -/
def staleClient : Client := ⟨some true, some "0f".toList, some "0f".toList, false⟩

theorem staleClient_stale : Stale "0f".toList staleClient := ⟨rfl, Or.inl rfl, rfl⟩

theorem refused_envelope :
    (∃ r, Response.error 403 (lit "Forbidden") (Utf8.encode "protection_required".toList)
        (Utf8.encode "需要密码验证".toList) = .ok r ∧
      (onResponse 0 0 (received r) =
          .throws ⟨403, str "protection_required".toList, str "需要密码验证".toList⟩ ↔
        "protection_required".toList = "unknown".toList ∧
          ("需要密码验证".toList ≠ [] ∨ lit "Forbidden" = []))) ∧
      ∃ error, Refused staleClient (.deleteFailed error) ∧
        Stale "0f".toList (Run.exec Client.step staleClient [.deleteFailed error, .load, .initStatus true]) := by
  obtain ⟨r, hr, -⟩ := error_ok 403 (lit "Forbidden") "protection_required".toList "需要密码验证".toList
  have hrefused : Refused staleClient (.deleteFailed (readError (received r))) := ⟨_, r, hr, rfl⟩
  obtain ⟨hthrows, hstale⟩ := error_envelope 0 403 (lit "Forbidden") "protection_required".toList
    "需要密码验证".toList (by decide) _ _ _ staleClient_stale
    (show Run.Each Client.step Refused staleClient
      [.deleteFailed (readError (received r)), .load, .initStatus true] from
      ⟨hrefused, trivial, trivial, trivial⟩)
  exact ⟨hthrows, _, hrefused, hstale⟩

/-- A refused deletion: the error has another code, and the client keeps its token. -/
theorem refused_deletion :
    ∃ r, Response.error 403 (lit "Forbidden") (Utf8.encode "protection_required".toList)
        (Utf8.encode "需要密码验证".toList) = .ok r ∧
      onResponse 0 0 (received r) ≠
        .throws ⟨403, str "protection_required".toList, str "需要密码验证".toList⟩ ∧
      (staleClient.step (.deleteFailed (readError (received r)))).protectionToken = some "0f".toList := by
  obtain ⟨r, hr, hstatus, -⟩ := error_ok 403 (lit "Forbidden") "protection_required".toList "需要密码验证".toList
  have hrefused : Refused staleClient (.deleteFailed (readError (received r))) := ⟨_, r, hr, rfl⟩
  refine ⟨r, hr, fun hthrows => ?_, ?_⟩
  · have hok : (received r).ok = false := by
      show (decide (200 ≤ r.status) && decide (r.status ≤ 299)) = false
      rw [hstatus]
      decide
    simp only [onResponse, lt_irrefl, and_false, if_false, hok, Bool.false_eq_true, readError_error hr,
      Outcome.throws.injEq, ApiError.mk.injEq, Value.str.injEq] at hthrows
    exact absurd hthrows.2.1 (by decide)
  · simp [Client.step, hrefused.code, staleClient]

end NarMusic.Web
